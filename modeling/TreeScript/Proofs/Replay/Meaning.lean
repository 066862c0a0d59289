/-
**What references stand for after a script.**

A reference to a source node means that node as long as it is there.  A reference to a destination
node means the node that was made for it last, as long as that is there; but a script may bring in
the same destination node more than once, and then the older nodes count as well.  When one of
them goes, the table that knows where it came from is asked, and what stands for that destination
node is forgotten even though it is another node, which stays.  From then on nothing can refer to
it.

Main definitions:

* `TreeScript.Latest` — the node that was made for a destination node last;
* `TreeScript.Undercut` — **an older node has gone since then**.

Main results:

* `TreeScript.Replay.Chronicle.current_iff` — the table says what was made last, unless that has
  been undercut;
* `TreeScript.Replay.live?_remove` — what is forgotten with a subtree;
* `TreeScript.Replay.run_resolves` — **what references stand for after a script**;
* `TreeScript.Replay.resolve_doubling` — **a node that is there and cannot be referred to**.
-/

import TreeScript.Proofs.Replay.History
import TreeScript.Proofs.Tree.Built

set_option relaxedAutoImplicit false
set_option autoImplicit false

namespace TreeScript

/-- `n` is the node that was made for destination node `d` last. -/
def Latest (es : List Event) (d n : NodeId) : Prop :=
  ∃ es₁ es₂, es = es₁ ++ .made d n :: es₂ ∧ ∀ m, .made d m ∉ es₂

/-- **Since a node was made for `d` last, an older one has gone.** -/
def Undercut (es : List Event) (d : NodeId) : Prop :=
  ∃ es₁ n es₂ m, es = es₁ ++ .made d n :: es₂ ∧ (∀ k, .made d k ∉ es₂) ∧ .made d m ∈ es₁ ∧
    .gone m ∈ es₂

variable {src dst : Tree} {es : List Event} {d n m : NodeId} {ref : NodeRef}

/-- Only one node is made last. -/
theorem Latest.split_unique {es₁ es₂ es₃ es₄ : List Event}
    (h : es₁ ++ .made d n :: es₂ = es₃ ++ .made d m :: es₄) (hlast : ∀ k, .made d k ∉ es₂)
    (hlast' : ∀ k, .made d k ∉ es₄) : es₁ = es₃ ∧ n = m ∧ es₂ = es₄ := by
  -- what is made after the other node is made last contradicts that
  rcases List.append_eq_append_iff.1 h with ⟨l, rfl, hl⟩ | ⟨l, rfl, hl⟩
  · cases l with
    | nil =>
        obtain ⟨he, rfl⟩ := List.cons.inj hl
        exact ⟨(List.append_nil _).symm, (Event.made.inj he).2, rfl⟩
    | cons e l =>
        obtain ⟨-, rfl⟩ := List.cons.inj hl
        exact absurd (List.mem_append_right _ List.mem_cons_self) (hlast m)
  · cases l with
    | nil =>
        obtain ⟨he, rfl⟩ := List.cons.inj hl
        exact ⟨List.append_nil _, (Event.made.inj he).2.symm, rfl⟩
    | cons e l =>
        obtain ⟨-, rfl⟩ := List.cons.inj hl
        exact absurd (List.mem_append_right _ List.mem_cons_self) (hlast' n)

/-- **What is undercut has been brought in more than once.** -/
theorem Undercut.two_le_count (h : Undercut es d) : 2 ≤ (es.filterMap Event.origin?).count d := by
  obtain ⟨es₁, n, es₂, m, rfl, -, hm, -⟩ := h
  have hold : 0 < (es₁.filterMap Event.origin?).count d :=
    List.count_pos_iff.2 (List.mem_filterMap.2 ⟨_, hm, rfl⟩)
  have hnew : 0 < ((Event.made d n :: es₂).filterMap Event.origin?).count d :=
    List.count_pos_iff.2 (List.mem_filterMap.2 ⟨_, List.mem_cons_self, rfl⟩)
  rw [List.filterMap_append, List.count_append]
  omega

namespace Replay

variable {r : Replay} {script : List Action}

/-- **What stands for a destination node** is what was made for it last, if that is there and has
not been undercut. -/
theorem Chronicle.current_iff (h : Chronicle src es r) (hr : r.Sound src.arena) :
    Current es d n ↔ Latest es d n ∧ n ∈ r.nodes ∧ ¬ Undercut es d := by
  constructor
  · intro hc
    have hn := hr.mem_nodes_iff.2 (hr.isLive (h.told.live?_dst.2 hc))
    obtain ⟨es₁, es₂, hes, hlast, hgone⟩ := hc
    refine ⟨⟨es₁, es₂, hes, hlast⟩, hn, ?_⟩
    rintro ⟨es₃, k, es₄, m, hes', hlast', hm, hg⟩
    obtain ⟨rfl, rfl, rfl⟩ := Latest.split_unique (hes.symm.trans hes') hlast hlast'
    exact hgone m (hes ▸ List.mem_append_left _ hm) hg
  · rintro ⟨⟨es₁, es₂, hes, hlast⟩, hn, hunder⟩
    have hngone := (h.isLive_iff.1 (hr.mem_nodes_iff.1 hn)).2
    refine ⟨es₁, es₂, hes, hlast, fun m hm hg => ?_⟩
    rw [hes, List.mem_append, List.mem_cons] at hm
    rcases hm with hm | hm | hm
    · exact hunder ⟨es₁, n, es₂, m, hes, hlast, hm, hg⟩
    · obtain ⟨-, rfl⟩ := Event.made.inj hm
      exact hngone (hes ▸ List.mem_append_right _ (List.mem_cons_of_mem _ hg))
    · exact hlast m hm

/-- **With a subtree go the references that its nodes came by**, whatever they stand for by now. -/
theorem live?_remove (r : Replay) (n : NodeId) (ref : NodeRef) : (r.remove n).live? ref =
    if ∃ k ∈ r.arena.preorder n, r.refs.get? k = some ref then none else r.live? ref := by
  rw [live?_remove_eq]
  generalize r.arena.preorder n = ns
  induction ns generalizing r with
  | nil => simp
  | cons k ns ih =>
      rw [List.foldl_cons, ih]
      simp only [refs_forget, live?_forget, List.exists_mem_cons_iff]
      by_cases hk : r.refs.get? k = some ref
      · simp [hk]
      · rw [if_neg hk, if_congr (or_iff_right hk) rfl rfl]
        refine if_congr (exists_congr fun j => and_congr_right fun _ => ?_) rfl rfl
        split_ifs with hkj
        · exact iff_of_false (by simp) (hkj ▸ hk)
        · rfl

/-! ### Main result -/

/-- **What references stand for after a script**, which has brought about `es`.  Source nodes stand
for themselves until they go.  A destination node stands for what was made for it last, if that is
there, and unless an older node that was made for it has gone in the meantime; that cannot be if
the script brings in the destination node once.  Every node that is there knows where it comes
from, and what references stand for knows them. -/
theorem run_resolves (hs : src.Built) (hd : dst.Built) (hnames : Names dst script)
    (hr : (start src dst).run script = .ok r) {es : List Event}
    (hes : es = (start src dst).history script) :
    (∀ s n, r.resolve (.src s) = .ok n ↔ n = s ∧ src.contains s ∧ .gone s ∉ es) ∧
    (∀ s, src.contains s → (s ∈ r.nodes ↔ .gone s ∉ es)) ∧
    (∀ d n, r.resolve (.dst d) = .ok n ↔ Latest es d n ∧ n ∈ r.nodes ∧ ¬ Undercut es d) ∧
    (∀ d, (script.flatMap (Action.brings dst)).count d ≤ 1 → ¬ Undercut es d) ∧
    (∀ n ref, r.refs.get? n = some ref ↔ Origin src es ref n ∧ n ∈ r.nodes) ∧
    ∀ ref n, r.resolve ref = .ok n → r.refs.get? n = some ref := by
  subst hes
  have hs := hs.wellFormed
  obtain ⟨hc, horigins⟩ := chronicle_run hs hd.wellFormed hnames hr
  have hsound := (sound_start hs dst).run hr
  have hgone : ∀ {n ref}, Origin src ((start src dst).history script) ref n →
      (n ∈ r.nodes ↔ .gone n ∉ (start src dst).history script) := fun ho => by
    rw [hsound.mem_nodes_iff, hc.isLive_iff, and_iff_right ⟨_, ho⟩]
  refine ⟨?_, ?_, ?_, ?_, ?_, ?_⟩
  · intro s n
    rw [Sound.resolve_iff, hc.told.live?_src, Origin.src_iff, hs.contains_iff]
    constructor
    · rintro ⟨⟨rfl, hn⟩, hg⟩
      exact ⟨rfl, hn, hg⟩
    · rintro ⟨rfl, hn, hg⟩
      exact ⟨⟨rfl, hn⟩, hg⟩
  · exact fun s hls => hgone (.src (hs.contains_iff.1 hls))
  · intro d n
    rw [Sound.resolve_iff, hc.told.live?_dst, hc.current_iff hsound]
  · intro d hd hunder
    have htwo := hunder.two_le_count
    rw [horigins] at htwo
    omega
  · intro n ref
    rw [hc.told.refs]
    exact and_congr_right fun ho => (hgone ho).symm
  · exact fun ref n hn => hsound.readable ref n (Sound.resolve_iff.1 hn)

/-- A leaf is brought in, goes with the leaf it is in, and is brought in once more. -/
def renewing : List Action :=
  [.insert ⟨1, 0⟩ (.src ⟨1, 0⟩) 0, .treeDelete ⟨1, 0⟩, .insert ⟨1, 0⟩ (.src ⟨2, 0⟩) 0]

/-- What the leaf was made for stands for the second node. -/
theorem run_resolves_renewing : ∃ src dst r, Tree.fan ⟨"item", 0⟩ "old" ["a", "b"] = .ok src ∧
    Tree.fan ⟨"item", 0⟩ "new" ["x", "y"] = .ok dst ∧ Names dst renewing ∧
    (start src dst).run renewing = .ok r ∧ r.resolve (.dst ⟨1, 0⟩) = .ok ⟨3, 1⟩ ∧
    r.resolve (.src ⟨2, 0⟩) = .ok ⟨2, 0⟩ ∧ ∀ n, r.resolve (.src ⟨1, 0⟩) ≠ .ok n := by
  obtain ⟨src, dst, r, hsrc, hdst, hnames, hs, hr, hn, hes⟩ : ∃ src dst r,
      Tree.fan ⟨"item", 0⟩ "old" ["a", "b"] = .ok src ∧
      Tree.fan ⟨"item", 0⟩ "new" ["x", "y"] = .ok dst ∧
      Names dst renewing ∧ src.contains ⟨2, 0⟩ ∧
      (start src dst).run renewing = .ok r ∧ ⟨3, 1⟩ ∈ r.nodes ∧
      (start src dst).history renewing =
        [.made ⟨1, 0⟩ ⟨3, 0⟩, .gone ⟨1, 0⟩, .gone ⟨3, 0⟩, .made ⟨1, 0⟩ ⟨3, 1⟩] :=
    ⟨_, _, _, rfl, rfl, by decide +kernel, by decide +kernel, rfl, by decide +kernel, rfl⟩
  obtain ⟨hsrcs, -, hdsts, -, -, -⟩ := run_resolves (Tree.built_fan _ _ _ hsrc)
    (Tree.built_fan _ _ _ hdst) hnames hr hes.symm
  refine ⟨src, dst, r, hsrc, hdst, hnames, hr, (hdsts _ _).2 ⟨?_, hn, ?_⟩, ?_, ?_⟩
  · exact ⟨[.made ⟨1, 0⟩ ⟨3, 0⟩, .gone ⟨1, 0⟩, .gone ⟨3, 0⟩], [], rfl, by simp⟩
  · -- what went did so before the second node was made
    rintro ⟨es₁, n, es₂, m, hsplit, hlast, -, hg⟩
    have hsplit : [.made ⟨1, 0⟩ ⟨3, 0⟩, .gone ⟨1, 0⟩, .gone ⟨3, 0⟩] ++ .made ⟨1, 0⟩ ⟨3, 1⟩ :: [] =
        es₁ ++ .made ⟨1, 0⟩ n :: es₂ := hsplit
    obtain ⟨-, -, rfl⟩ := Latest.split_unique hsplit (by simp) hlast
    simp at hg
  · exact (hsrcs _ _).2 ⟨rfl, hs, by simp⟩
  · exact fun n hn => ((hsrcs _ n).1 hn).2.2 (by simp)

/-- A leaf is brought in under two leaves, and the first of them goes. -/
def doubling : List Action :=
  [.insert ⟨1, 0⟩ (.src ⟨1, 0⟩) 0, .insert ⟨1, 0⟩ (.src ⟨2, 0⟩) 0, .treeDelete ⟨1, 0⟩]

/-- **The second node is there and cannot be referred to**: its reference was forgotten with the
first. -/
theorem resolve_doubling : ∃ src dst r, Tree.fan ⟨"item", 0⟩ "old" ["a", "b"] = .ok src ∧
    Tree.fan ⟨"item", 0⟩ "new" ["x", "y"] = .ok dst ∧ Names dst doubling ∧
    (start src dst).run doubling = .ok r ∧
    Latest ((start src dst).history doubling) ⟨1, 0⟩ ⟨4, 0⟩ ∧ ⟨4, 0⟩ ∈ r.nodes ∧
    r.resolve (.dst ⟨1, 0⟩) = .error (.unknownNode (.dst ⟨1, 0⟩)) :=
  ⟨_, _, _, rfl, rfl, by decide +kernel, rfl,
    ⟨[.made ⟨1, 0⟩ ⟨3, 0⟩], [.gone ⟨1, 0⟩, .gone ⟨3, 0⟩], rfl, by simp⟩, by decide +kernel, rfl⟩

end Replay

end TreeScript
