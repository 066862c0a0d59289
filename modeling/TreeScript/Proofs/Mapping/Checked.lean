/-
**Filling a mapping with checks.**

With checks a call that does not fit is a fault; without them it is passed over, and of two
subtrees the pairs that fit are added.  As long as no call is refused both do the same.  A call is
refused if its pair is not allowed, or if its subtrees differ or one of their pairs is not allowed;
since no node is met twice in one walk, it makes no difference whether a pair is looked at before
the call or in its turn.

Main definitions:

* `TreeScript.Mapping.Refuses` — **the fault of a pair**: that of the first check that fails;
* `TreeScript.Mapping.Refused`, `TreeScript.Mapping.Faults` — calls that are refused, and the fault
  of such a call;
* `TreeScript.Mapping.performChecked`, `TreeScript.Mapping.fillChecked` — calls with checks.

Main results:

* `TreeScript.Mapping.add_cases` — one pair, with checks and without;
* `TreeScript.Mapping.performChecked_eq_error_iff`, `TreeScript.Mapping.exists_perform_eq` — **one
  call**: it is refused with its fault, or checks make no difference;
* `TreeScript.Mapping.fillChecked_until_refused` — **checks make no difference up to the first call
  that is refused**.
-/

import TreeScript.Proofs.Mapping.Greedy
import TreeScript.Proofs.Tree.Isomorphic

set_option relaxedAutoImplicit false
set_option autoImplicit false

namespace TreeScript.Mapping

variable {m m' : Mapping} {src dst : Tree} {s d x y : NodeId} {f f' : Fault} {r : Request}
  {l ps : List (NodeId × NodeId)}

/-! ### Refusals -/

/-- **Why a pair is refused**: what the first check that fails says.  The source node is looked at
first, then the destination node, and their types at last. -/
inductive Refuses (m : Mapping) (s d : NodeId) : Fault → Prop where
  | source (hs : m.hasSrc s) : Refuses m s d (.sourceMapped s)
  | destination (hs : m.hasSrc s = false) (hd : m.hasDst d) : Refuses m s d (.destinationMapped d)
  | types {k k' : NodeType} (hs : m.hasSrc s = false) (hd : m.hasDst d = false)
      (hk : m.src.kind s = .ok k) (hk' : m.dst.kind d = .ok k') (hne : k ≠ k') :
      Refuses m s d (.typeMismatch k.name k'.name)

/-- Whether a call is refused: its pair is not allowed, or its subtrees differ, or one of the pairs
of their walks is not allowed. -/
def Refused (m : Mapping) : Request → Prop
  | .pair s d => m.isAllowed s d = .ok false
  | .subtrees s d => m.src.isIsomorphic s m.dst d = .ok false ∨
      ∃ ps p, m.inStep s d = .ok ps ∧ p ∈ ps ∧ m.isAllowed p.1 p.2 = .ok false

/-- **Why a call is refused**: its subtrees differ, or it is the first of its pairs that is not
allowed. -/
inductive Faults (m : Mapping) : Request → Fault → Prop where
  | pair {s d : NodeId} {f : Fault} (h : m.Refuses s d f) : Faults m (.pair s d) f
  | shape {s d : NodeId} (h : m.src.isIsomorphic s m.dst d = .ok false) :
      Faults m (.subtrees s d) .notIsomorphic
  | subtrees {s d : NodeId} {f : Fault} {before after : List (NodeId × NodeId)}
      {p : NodeId × NodeId} (h : m.src.isIsomorphic s m.dst d = .ok true)
      (hps : m.inStep s d = .ok (before ++ p :: after))
      (hbefore : ∀ q ∈ before, m.isAllowed q.1 q.2 = .ok true) (hp : m.Refuses p.1 p.2 f) :
      Faults m (.subtrees s d) f

/-- A call, which has to fit. -/
def performChecked (m : Mapping) : Request → Except Fault Mapping
  | .pair s d => m.addChecked s d
  | .subtrees s d => m.addSubtreesChecked s d

/-- The mapping that a sequence of calls makes of the empty one if all of them fit. -/
def fillChecked (src dst : Tree) (requests : List Request) : Except Fault Mapping :=
  requests.foldlM performChecked (empty src dst)

/-! ### One pair -/

section OnePair

variable (hs : m.src.arena.isLive s) (hd : m.dst.arena.isLive d)

include hs hd

/-- Looking at the types of two nodes does not fail. -/
theorem exists_kinds : ∃ k k', m.src.kind s = .ok k ∧ m.dst.kind d = .ok k' ∧
    m.isAllowed s d = .ok (k == k' && !m.hasSrc s && !m.hasDst d) ∧
    (k = k' ↔
      (m.src.arena.data? s).map NodeData.kind = (m.dst.arena.data? d).map NodeData.kind) := by
  obtain ⟨e, he⟩ := Arena.exists_data?_of_isLive hs
  obtain ⟨e', he'⟩ := Arena.exists_data?_of_isLive hd
  have hk := Tree.kind_eq_ok he
  have hk' := Tree.kind_eq_ok he'
  refine ⟨e.kind, e'.kind, hk, hk', ?_, by simp [he, he']⟩
  rw [isAllowed, hk, hk']
  rfl

/-- A pair that is refused is not allowed, and a fault if it is checked. -/
theorem Refuses.eq_error (h : m.Refuses s d f) :
    m.isAllowed s d = .ok false ∧ m.addChecked s d = .error f := by
  obtain ⟨k, k', hk, hk', hallowed, -⟩ := exists_kinds hs hd
  rw [hallowed]
  cases h with
  | source hsrc =>
      refine ⟨by simp [hsrc], ?_⟩
      rw [addChecked, hsrc]
      rfl
  | destination hsrc hdst =>
      refine ⟨by simp [hdst], ?_⟩
      rw [addChecked, hsrc, hdst]
      rfl
  | @types k₁ k₁' hsrc hdst hk₁ hk₁' hne =>
      obtain rfl := Except.ok.inj (hk.symm.trans hk₁)
      obtain rfl := Except.ok.inj (hk'.symm.trans hk₁')
      refine ⟨by simp [hne], ?_⟩
      rw [addChecked, hsrc, hdst, hk, hk']
      exact if_neg (c := (k == k') = true) (by simpa using hne)

/-- **A pair is allowed, and added whether it is checked or not, or it is refused.** -/
theorem add_cases :
    (m.isAllowed s d = .ok true ∧ m.add s d = .ok (m.push s d) ∧
      m.addChecked s d = .ok (m.push s d)) ∨ ∃ f, m.Refuses s d f := by
  obtain ⟨k, k', hk, hk', hallowed, hkinds⟩ := exists_kinds hs hd
  cases hsrc : m.hasSrc s with
  | true => exact Or.inr ⟨_, Refuses.source hsrc⟩
  | false =>
      cases hdst : m.hasDst d with
      | true => exact Or.inr ⟨_, Refuses.destination hsrc hdst⟩
      | false =>
          by_cases he : k = k'
          · refine Or.inl ⟨by simp [hallowed, hsrc, hdst, he], ?_⟩
            exact add_eq_push hs hd (hkinds.1 he) (hasSrc_eq_false_iff.1 hsrc)
              (hasDst_eq_false_iff.1 hdst)
          · exact Or.inr ⟨_, Refuses.types hsrc hdst hk hk' he⟩

theorem isAllowed_eq_false_iff : m.isAllowed s d = .ok false ↔ ∃ f, m.Refuses s d f := by
  constructor
  · intro h
    refine (add_cases hs hd).resolve_left ?_
    rintro ⟨hallowed, -⟩
    rw [h] at hallowed
    cases hallowed
  · rintro ⟨f, hf⟩
    exact (hf.eq_error hs hd).1

theorem addChecked_eq_error_iff : m.addChecked s d = .error f ↔ m.Refuses s d f := by
  constructor
  · intro h
    rcases add_cases hs hd with ⟨-, -, hadd⟩ | ⟨f', hf'⟩
    · rw [h] at hadd
      cases hadd
    · have hadd := (hf'.eq_error hs hd).2
      rw [h] at hadd
      obtain rfl := Except.error.inj hadd
      exact hf'
  · exact fun h => (h.eq_error hs hd).2

end OnePair

/-! ### Pairs of other nodes -/

/-- What decides about a pair is the same in two mappings. -/
structure SameAt (m m' : Mapping) (s d : NodeId) : Prop where
  src : m'.src = m.src
  dst : m'.dst = m.dst
  hasSrc : m'.hasSrc s = m.hasSrc s
  hasDst : m'.hasDst d = m.hasDst d

namespace SameAt

theorem isAllowed (h : m.SameAt m' s d) : m'.isAllowed s d = m.isAllowed s d := by
  unfold Mapping.isAllowed
  rw [h.src, h.dst, h.hasSrc, h.hasDst]

theorem refuses (h : m.SameAt m' s d) (hf : m.Refuses s d f) : m'.Refuses s d f := by
  cases hf with
  | source hs => exact Refuses.source (h.hasSrc.trans hs)
  | destination hs hd => exact Refuses.destination (h.hasSrc.trans hs) (h.hasDst.trans hd)
  | types hs hd hk hk' hne =>
      exact Refuses.types (h.hasSrc.trans hs) (h.hasDst.trans hd) (h.src ▸ hk) (h.dst ▸ hk') hne

/-- A pair of other nodes changes nothing. -/
theorem push (hs : m.src.arena.isLive s) (hd : m.dst.arena.isLive d) (hx : m.src.arena.isLive x)
    (hy : m.dst.arena.isLive y) (hxs : x ≠ s) (hyd : y ≠ d) : m.SameAt (m.push x y) s d where
  src := rfl
  dst := rfl
  hasSrc := by
    rw [Mapping.hasSrc, counterpart?_push, if_congr (Arena.slot_eq_iff hx hs) rfl rfl, if_neg hxs]
    rfl
  hasDst := by
    rw [Mapping.hasDst, source?_push, if_congr (Arena.slot_eq_iff hy hd) rfl rfl, if_neg hyd]
    rfl

/-- Nor does a sequence of such pairs. -/
theorem foldlM_add (hs : m.src.arena.isLive s) (hd : m.dst.arena.isLive d)
    (hps : ∀ p ∈ ps, m.src.arena.isLive p.1 ∧ m.dst.arena.isLive p.2 ∧ p.1 ≠ s ∧ p.2 ≠ d)
    (hadd : ps.foldlM (fun m p => m.add p.1 p.2) m = .ok m') : m.SameAt m' s d := by
  refine foldlM_invariant (m.SameAt · s d) ?_ hadd ⟨rfl, rfl, rfl, rfl⟩
  intro m₁ m₂ p hp h₁ hadd
  obtain ⟨hx, hy, hxs, hyd⟩ := hps p hp
  have hx₁ : m₁.src.arena.isLive p.1 := h₁.src ▸ hx
  have hy₁ : m₁.dst.arena.isLive p.2 := h₁.dst ▸ hy
  obtain ⟨k, k', -, -, hallowed, -⟩ := exists_kinds hx₁ hy₁
  rw [Mapping.add, hallowed] at hadd
  obtain rfl := pure_eq_ok.1 hadd
  split
  case isTrue =>
    have h₂ := SameAt.push (h₁.src ▸ hs) (h₁.dst ▸ hd) hx₁ hy₁ hxs hyd
    exact ⟨h₂.src.trans h₁.src, h₂.dst.trans h₁.dst, h₂.hasSrc.trans h₁.hasSrc,
      h₂.hasDst.trans h₁.hasDst⟩
  case isFalse => exact h₁

end SameAt

/-! ### The pairs of two walks -/

/-- No node is in two of the pairs. -/
def Apart (p q : NodeId × NodeId) : Prop := p.1 ≠ q.1 ∧ p.2 ≠ q.2

theorem pairwise_apart_zip {ns ks : List NodeId} (hns : ns.Nodup) (hks : ks.Nodup) :
    (ns.zip ks).Pairwise Apart := by
  induction ns generalizing ks with
  | nil => exact List.Pairwise.nil
  | cons n ns ih =>
      cases ks with
      | nil => exact List.Pairwise.nil
      | cons k ks =>
          obtain ⟨hn, hns⟩ := List.nodup_cons.1 hns
          obtain ⟨hk, hks⟩ := List.nodup_cons.1 hks
          refine List.Pairwise.cons (fun p hp => ?_) (ih hns hks)
          obtain ⟨hp₁, hp₂⟩ := List.of_mem_zip hp
          exact ⟨ne_of_mem_of_not_mem hp₁ hn |>.symm, ne_of_mem_of_not_mem hp₂ hk |>.symm⟩

/-- The first element of a list with a property. -/
theorem exists_first {σ : Type} {P : σ → Prop} {l : List σ} (h : ∃ x ∈ l, P x) :
    ∃ before x after, l = before ++ x :: after ∧ P x ∧ ∀ y ∈ before, ¬ P y := by
  induction l with
  | nil => simp at h
  | cons x l ih =>
      by_cases hx : P x
      · exact ⟨[], x, l, rfl, hx, by simp⟩
      · obtain ⟨y, hy, hP⟩ := h
        have hy : y ∈ l := (List.mem_cons.1 hy).resolve_left fun he => hx (he ▸ hP)
        obtain ⟨before, z, after, rfl, hz, hbefore⟩ := ih ⟨y, hy, hP⟩
        exact ⟨x :: before, z, after, rfl, hz, List.forall_mem_cons.2 ⟨hx, hbefore⟩⟩

/-- **Pairs that are all allowed are added, whether they are checked or not.** -/
theorem exists_foldlM_add_eq (hapart : ps.Pairwise Apart)
    (hlive : ∀ p ∈ ps, m.src.arena.isLive p.1 ∧ m.dst.arena.isLive p.2)
    (hallowed : ∀ p ∈ ps, m.isAllowed p.1 p.2 = .ok true) :
    ∃ m', ps.foldlM (fun m p => m.add p.1 p.2) m = .ok m' ∧
      ps.foldlM (fun m p => m.addChecked p.1 p.2) m = .ok m' := by
  induction ps generalizing m with
  | nil => exact ⟨m, rfl, rfl⟩
  | cons p ps ih =>
      obtain ⟨hp, hapart⟩ := List.pairwise_cons.1 hapart
      obtain ⟨⟨hx, hy⟩, hlive⟩ := List.forall_mem_cons.1 hlive
      obtain ⟨hpa, hallowed⟩ := List.forall_mem_cons.1 hallowed
      rcases add_cases hx hy with ⟨-, hadd, hchecked⟩ | ⟨f, hf⟩
      · obtain ⟨m', h, h'⟩ := ih (m := m.push p.1 p.2) hapart hlive fun q hq =>
          (SameAt.push (hlive q hq).1 (hlive q hq).2 hx hy (hp q hq).1 (hp q hq).2).isAllowed.trans
            (hallowed q hq)
        exact ⟨m', by rw [List.foldlM_cons, hadd, bind_ok, h],
          by rw [List.foldlM_cons, hchecked, bind_ok, h']⟩
      · rw [(hf.eq_error hx hy).1] at hpa
        cases hpa

section Walks

variable (hs : m.src.WellFormed) (hd : m.dst.WellFormed) (hls : m.src.arena.isLive s)
  (hld : m.dst.arena.isLive d)

include hls hld in
theorem inStep_eq_ok :
    m.inStep s d = .ok ((m.src.arena.preorder s).zip (m.dst.arena.preorder d)) := by
  rw [inStep, Tree.descendants_eq_ok hls, Tree.descendants_eq_ok hld]
  rfl

include hs hd hls hld

/-- Comparing two subtrees does not fail. -/
theorem exists_isIsomorphic : ∃ b, m.src.isIsomorphic s m.dst d = .ok b := by
  obtain ⟨v, hv, -⟩ := hs.exists_view hls
  obtain ⟨w, hw, -⟩ := hd.exists_view hld
  exact ⟨_, by rw [Tree.isIsomorphic, hv, hw]; rfl⟩

/-- No node is met twice in the walks below two nodes. -/
theorem walks_apart (hps : m.inStep s d = .ok ps) : ps.Pairwise Apart ∧
    ∀ p ∈ ps, m.src.arena.isLive p.1 ∧ m.dst.arena.isLive p.2 := by
  rw [inStep_eq_ok hls hld] at hps
  obtain rfl := Except.ok.inj hps
  refine ⟨pairwise_apart_zip (hs.arena.nodup_preorder hls) (hd.arena.nodup_preorder hld), ?_⟩
  intro p hp
  obtain ⟨hps, hpd⟩ := List.of_mem_zip hp
  exact ⟨((hs.arena.mem_preorder_iff hls).1 hps).1, ((hd.arena.mem_preorder_iff hld).1 hpd).1⟩

/-- **It makes no difference whether a pair is looked at before the call or in its turn.** -/
theorem sameAt_in_turn {before after : List (NodeId × NodeId)} {p : NodeId × NodeId}
    (hps : m.inStep s d = .ok (before ++ p :: after))
    (hbefore : before.foldlM (fun m p => m.add p.1 p.2) m = .ok m') : m.SameAt m' p.1 p.2 := by
  obtain ⟨hapart, hlive⟩ := walks_apart hs hd hls hld hps
  obtain ⟨hx, hy⟩ := hlive p (by simp)
  refine SameAt.foldlM_add hx hy (fun q hq => ?_) hbefore
  obtain ⟨hqx, hqy⟩ := hlive q (List.mem_append_left _ hq)
  exact ⟨hqx, hqy, (List.pairwise_append.1 hapart).2.2 q hq p List.mem_cons_self⟩

end Walks

/-! ### One call -/

section OneCall

variable (hs : m.src.WellFormed) (hd : m.dst.WellFormed) (hls : m.src.arena.isLive r.source)
  (hld : m.dst.arena.isLive r.target)

include hs hd hls hld

/-- A call with a fault is refused, and fails with that fault. -/
theorem Faults.eq_error (h : m.Faults r f) : m.Refused r ∧ m.performChecked r = .error f := by
  cases h with
  | pair h => exact h.eq_error hls hld
  | shape h =>
      refine ⟨Or.inl h, ?_⟩
      rw [performChecked, addSubtreesChecked, h]
      rfl
  | @subtrees s d _ before after p h hps hbefore hp =>
      obtain ⟨hapart, hlive⟩ := walks_apart hs hd hls hld hps
      obtain ⟨hx, hy⟩ := hlive p (by simp)
      obtain ⟨m', hadd, hchecked⟩ := exists_foldlM_add_eq (hapart.sublist (by simp))
        (fun q hq => hlive q (List.mem_append_left _ hq)) hbefore
      have hsame := sameAt_in_turn hs hd hls hld hps hadd
      have hp' := ((hsame.refuses hp).eq_error (hsame.src ▸ hx) (hsame.dst ▸ hy)).2
      refine ⟨Or.inr ⟨_, p, hps, by simp, (hp.eq_error hx hy).1⟩, ?_⟩
      rw [performChecked, addSubtreesChecked, h, bind_ok, if_pos rfl, hps, bind_ok,
        List.foldlM_append, hchecked, bind_ok, List.foldlM_cons, hp']
      rfl

/-- **A call that is refused has a fault.** -/
theorem exists_faults (h : m.Refused r) : ∃ f, m.Faults r f := by
  cases r with
  | pair s d => exact ((isAllowed_eq_false_iff hls hld).1 h).imp fun _ => Faults.pair
  | subtrees s d =>
      replace hls : m.src.arena.isLive s := hls
      replace hld : m.dst.arena.isLive d := hld
      obtain ⟨b, hiso⟩ := exists_isIsomorphic hs hd hls hld
      cases b with
      | false => exact ⟨_, Faults.shape hiso⟩
      | true =>
          rcases h with h | ⟨ps, p, hps, hp, hrefused⟩
          · rw [hiso] at h
            cases h
          · obtain ⟨before, q, after, rfl, hq, hbefore⟩ := exists_first
              (P := fun q => m.isAllowed q.1 q.2 = .ok false) ⟨p, hp, hrefused⟩
            obtain ⟨-, hlive⟩ := walks_apart hs hd hls hld hps
            obtain ⟨hx, hy⟩ := hlive q (by simp)
            obtain ⟨f, hf⟩ := (isAllowed_eq_false_iff hx hy).1 hq
            refine ⟨f, Faults.subtrees hiso hps (fun o ho => ?_) hf⟩
            obtain ⟨hox, hoy⟩ := hlive o (List.mem_append_left _ ho)
            rcases add_cases hox hoy with ⟨hallowed, -⟩ | hrefuses
            · exact hallowed
            · exact absurd ((isAllowed_eq_false_iff hox hoy).2 hrefuses) (hbefore o ho)

/-- **If a call is not refused, checks make no difference.** -/
theorem exists_perform_eq (h : ¬ m.Refused r) :
    ∃ m', m.perform r = .ok m' ∧ m.performChecked r = .ok m' := by
  cases r with
  | pair s d =>
      rcases add_cases hls hld with ⟨-, hadd, hchecked⟩ | hrefuses
      · exact ⟨_, hadd, hchecked⟩
      · exact absurd ((isAllowed_eq_false_iff hls hld).2 hrefuses) h
  | subtrees s d =>
      replace hls : m.src.arena.isLive s := hls
      replace hld : m.dst.arena.isLive d := hld
      obtain ⟨b, hiso⟩ := exists_isIsomorphic hs hd hls hld
      cases b with
      | false => exact absurd (Or.inl hiso) h
      | true =>
          have hps := inStep_eq_ok hls hld
          obtain ⟨hapart, hlive⟩ := walks_apart hs hd hls hld hps
          obtain ⟨m', hadd, hchecked⟩ := exists_foldlM_add_eq hapart hlive fun p hp => by
            obtain ⟨hx, hy⟩ := hlive p hp
            rcases add_cases hx hy with ⟨hallowed, -⟩ | hrefuses
            · exact hallowed
            · have hnot := (isAllowed_eq_false_iff hx hy).2 hrefuses
              exact absurd (Or.inr ⟨_, p, hps, hp, hnot⟩) h
          refine ⟨m', ?_, ?_⟩
          · rw [perform, addSubtrees, hps, bind_ok, hadd]
          · rw [performChecked, addSubtreesChecked, hiso, bind_ok, if_pos rfl, hps, bind_ok,
              hchecked]

/-- **A checked call fails exactly if it is refused**, and with its fault. -/
theorem performChecked_eq_error_iff : m.performChecked r = .error f ↔ m.Faults r f := by
  refine ⟨fun h => ?_, fun h => (h.eq_error hs hd hls hld).2⟩
  by_cases hrefused : m.Refused r
  · obtain ⟨f', hf'⟩ := exists_faults hs hd hls hld hrefused
    have herror := (hf'.eq_error hs hd hls hld).2
    rw [h] at herror
    exact Except.error.inj herror ▸ hf'
  · obtain ⟨m', -, hchecked⟩ := exists_perform_eq hs hd hls hld hrefused
    rw [h] at hchecked
    cases hchecked

end OneCall

/-! ### Sequences of calls -/

section Calls

variable {requests : List Request} (hs : src.WellFormed) (hd : dst.WellFormed)

include hs hd

/-- A sequence of calls that passes all checks does the same without them. -/
theorem Kept.foldlM_perform_eq (h : Kept src dst l m)
    (hr : ∀ r ∈ requests, src.arena.isLive r.source ∧ dst.arena.isLive r.target)
    (hchecked : requests.foldlM performChecked m = .ok m') :
    requests.foldlM perform m = .ok m' := by
  induction requests generalizing l m with
  | nil => exact hchecked
  | cons r requests ih =>
      obtain ⟨⟨hrs, hrd⟩, hr⟩ := List.forall_mem_cons.1 hr
      rw [List.foldlM_cons, bind_eq_ok] at hchecked
      obtain ⟨m₁, hm₁, hchecked⟩ := hchecked
      obtain ⟨m₂, hperform, h₂⟩ := h.exists_perform hs hd r hrs hrd
      obtain ⟨_, _, rfl, rfl, _⟩ := h.toPairs
      have hnot : ¬ m.Refused r := fun hrefused => by
        obtain ⟨f, hf⟩ := exists_faults hs hd hrs hrd hrefused
        rw [(hf.eq_error hs hd hrs hrd).2] at hm₁
        cases hm₁
      obtain ⟨m₃, h₃, h₃'⟩ := exists_perform_eq hs hd hrs hrd hnot
      obtain rfl := Except.ok.inj (hm₁.symm.trans h₃')
      obtain rfl := Except.ok.inj (hperform.symm.trans h₃)
      rw [List.foldlM_cons, hperform, bind_ok, ih h₂ hr hchecked]

/-- **The calls of a sequence that passes all checks do the same without them.** -/
theorem fill_of_fillChecked
    (hr : ∀ r ∈ requests, src.arena.isLive r.source ∧ dst.arena.isLive r.target)
    (h : fillChecked src dst requests = .ok m) : fill src dst requests = .ok m :=
  (Kept.nil hs hd).foldlM_perform_eq hs hd hr h

variable {before after : List Request}
  (hr : ∀ r' ∈ before ++ r :: after, src.arena.isLive r'.source ∧ dst.arena.isLive r'.target)
  (hfill : fill src dst before = .ok m)

include hr hfill

/-- The mapping that the first calls make is one of the two trees, and the next call is on nodes of
them. -/
theorem fill_trees : m.src.WellFormed ∧ m.dst.WellFormed ∧
    m.src.arena.isLive r.source ∧ m.dst.arena.isLive r.target := by
  obtain ⟨m', hfill', hm'⟩ := (Kept.nil hs hd).exists_performAll hs hd
    fun r' hmem => hr r' (List.mem_append_left _ hmem)
  obtain rfl := Except.ok.inj (hfill.symm.trans hfill')
  obtain ⟨hls, hld⟩ := hr r (by simp)
  rw [hm'.src_eq, hm'.dst_eq]
  exact ⟨hs, hd, hls, hld⟩

/-- The next call is refused if and only if it has a fault. -/
theorem refused_iff_of_fill : m.Refused r ↔ ∃ f, m.Faults r f := by
  obtain ⟨hs₀, hd₀, hls, hld⟩ := fill_trees hs hd hr hfill
  exact ⟨exists_faults hs₀ hd₀ hls hld, fun ⟨f, hf⟩ => (hf.eq_error hs₀ hd₀ hls hld).1⟩

theorem performChecked_eq_error_iff_of_fill : m.performChecked r = .error f ↔ m.Faults r f := by
  obtain ⟨hs₀, hd₀, hls, hld⟩ := fill_trees hs hd hr hfill
  exact performChecked_eq_error_iff hs₀ hd₀ hls hld

end Calls

/-- **A checked sequence of calls fails at the first call that is refused**, and with its fault. -/
theorem fillChecked_eq_error_iff {requests : List Request} (hs : src.WellFormed)
    (hd : dst.WellFormed)
    (hr : ∀ r ∈ requests, src.arena.isLive r.source ∧ dst.arena.isLive r.target) :
    fillChecked src dst requests = .error f ↔ ∃ before r after m₀,
      requests = before ++ r :: after ∧ fillChecked src dst before = .ok m₀ ∧
      fill src dst before = .ok m₀ ∧ m₀.Refused r ∧ m₀.Faults r f := by
  rw [fillChecked, foldlM_eq_error_iff]
  refine exists_congr fun before => exists_congr fun r => exists_congr fun after =>
    exists_congr fun m₀ => and_congr_right ?_
  rintro rfl
  refine and_congr_right fun hchecked => ?_
  have hfill : fill src dst before = .ok m₀ :=
    fill_of_fillChecked hs hd (fun r' hmem => hr r' (List.mem_append_left _ hmem)) hchecked
  rw [performChecked_eq_error_iff_of_fill hs hd hr hfill]
  refine ⟨fun hf => ⟨hfill, ?_, hf⟩, fun h => h.2.2⟩
  exact (refused_iff_of_fill hs hd hr hfill).2 ⟨f, hf⟩

/-- A checked sequence of calls succeeds if and only if none of them is refused at its turn. -/
theorem exists_fillChecked_iff {requests : List Request} (hs : src.WellFormed)
    (hd : dst.WellFormed)
    (hr : ∀ r ∈ requests, src.arena.isLive r.source ∧ dst.arena.isLive r.target) :
    (∃ m, fillChecked src dst requests = .ok m) ↔ ∀ before r after m₀,
      requests = before ++ r :: after → fill src dst before = .ok m₀ → ¬ m₀.Refused r := by
  constructor
  · rintro ⟨m, hm⟩ before r after m₀ rfl hfill hrefused
    obtain ⟨f, hf⟩ := (refused_iff_of_fill hs hd hr hfill).1 hrefused
    rw [fillChecked, List.foldlM_append, bind_eq_ok] at hm
    obtain ⟨m₁, hm₁, hm⟩ := hm
    have hfill₁ := fill_of_fillChecked hs hd
      (fun r' hmem => hr r' (List.mem_append_left _ hmem)) hm₁
    obtain rfl := Except.ok.inj (hfill.symm.trans hfill₁)
    rw [List.foldlM_cons, (performChecked_eq_error_iff_of_fill hs hd hr hfill).2 hf] at hm
    cases hm
  · intro h
    cases hm : fillChecked src dst requests with
    | ok m => exact ⟨m, rfl⟩
    | error f =>
        obtain ⟨before, r, after, m₀, hsplit, -, hfill, hrefused, -⟩ :=
          (fillChecked_eq_error_iff hs hd hr).1 hm
        exact absurd hrefused (h before r after m₀ hsplit hfill)

/-- **Checks make no difference up to the first call that is refused.**  A sequence of calls that
passes all checks makes the very mapping that it makes without them; it passes if and only if no
call is refused at its turn; and if it does not pass, it fails at the first call that is refused,
with the fault of that call.  Every refused call has a fault.  The pairs of two subtrees are refused
in their turn if and only if they are refused before the call. -/
theorem fillChecked_until_refused (hs : src.Built) (hd : dst.Built) (requests : List Request)
    (hr : ∀ r ∈ requests, src.contains r.source ∧ dst.contains r.target) :
    (∀ m, fillChecked src dst requests = .ok m → fill src dst requests = .ok m) ∧
    ((∃ m, fillChecked src dst requests = .ok m) ↔ ∀ before r after m₀,
      requests = before ++ r :: after → fill src dst before = .ok m₀ → ¬ m₀.Refused r) ∧
    (∀ f, fillChecked src dst requests = .error f ↔ ∃ before r after m₀,
      requests = before ++ r :: after ∧ fillChecked src dst before = .ok m₀ ∧
      fill src dst before = .ok m₀ ∧ m₀.Refused r ∧ m₀.Faults r f) ∧
    ∀ before r after m₀, requests = before ++ r :: after → fill src dst before = .ok m₀ →
      (m₀.Refused r ↔ ∃ f, m₀.Faults r f) ∧
      ∀ s d ps p qs m₁, r = .subtrees s d → m₀.inStep s d = .ok (ps ++ p :: qs) →
        ps.foldlM (fun m q => m.add q.1 q.2) m₀ = .ok m₁ →
        m₁.isAllowed p.1 p.2 = m₀.isAllowed p.1 p.2 := by
  have hs := hs.wellFormed
  have hd := hd.wellFormed
  have hlive : ∀ r ∈ requests, src.arena.isLive r.source ∧ dst.arena.isLive r.target :=
    fun r hmem => (hr r hmem).imp hs.contains_iff.1 hd.contains_iff.1
  refine ⟨fun m => fill_of_fillChecked hs hd hlive, exists_fillChecked_iff hs hd hlive,
    fun f => fillChecked_eq_error_iff hs hd hlive, ?_⟩
  rintro before r after m₀ rfl hfill
  refine ⟨refused_iff_of_fill hs hd hlive hfill, ?_⟩
  rintro s d ps p qs m₁ rfl hps hadd
  obtain ⟨hs₀, hd₀, hls, hld⟩ := fill_trees hs hd hlive hfill
  exact (sameAt_in_turn hs₀ hd₀ hls hld hps hadd).isAllowed

/-- The roots are paired, and then all pairs from the roots on. -/
def rooted : List Request := [.pair ⟨0, 0⟩ ⟨0, 0⟩, .subtrees ⟨0, 0⟩ ⟨0, 0⟩, .pair ⟨1, 0⟩ ⟨1, 0⟩]

/-- With checks the second call fails, at the first of its pairs; without them all calls are
made. -/
theorem fillChecked_until_refused_rooted : ∃ src m, Tree.fan ⟨"item", 0⟩ "root" ["a"] = .ok src ∧
    fillChecked src src rooted = .error (.sourceMapped ⟨0, 0⟩) ∧ fill src src rooted = .ok m ∧
    m.pairs = [(⟨0, 0⟩, ⟨0, 0⟩), (⟨1, 0⟩, ⟨1, 0⟩)] := by
  obtain ⟨src, m₀, m, hsrc, hr, hchecked, hfill, hiso, hps, hmapped, hm, hpairs⟩ : ∃ src m₀ m,
      Tree.fan ⟨"item", 0⟩ "root" ["a"] = .ok src ∧
      (∀ r ∈ rooted, src.contains r.source ∧ src.contains r.target) ∧
      fillChecked src src [.pair ⟨0, 0⟩ ⟨0, 0⟩] = .ok m₀ ∧
      fill src src [.pair ⟨0, 0⟩ ⟨0, 0⟩] = .ok m₀ ∧
      m₀.src.isIsomorphic ⟨0, 0⟩ m₀.dst ⟨0, 0⟩ = .ok true ∧
      m₀.inStep ⟨0, 0⟩ ⟨0, 0⟩ = .ok ([] ++ (⟨0, 0⟩, ⟨0, 0⟩) :: [(⟨1, 0⟩, ⟨1, 0⟩)]) ∧
      m₀.hasSrc ⟨0, 0⟩ ∧ fill src src rooted = .ok m ∧
      m.pairs = [(⟨0, 0⟩, ⟨0, 0⟩), (⟨1, 0⟩, ⟨1, 0⟩)] :=
    ⟨_, _, _, rfl, by decide +kernel, rfl, rfl, by rfl, rfl, by decide +kernel, rfl,
      by decide +kernel⟩
  have hb := Tree.built_fan _ _ _ hsrc
  obtain ⟨-, -, herror, hcalls⟩ := fillChecked_until_refused hb hb rooted hr
  have hfaults : m₀.Faults (.subtrees ⟨0, 0⟩ ⟨0, 0⟩) (.sourceMapped ⟨0, 0⟩) :=
    Faults.subtrees hiso hps (by simp) (Refuses.source hmapped)
  have hrefused := ((hcalls [.pair ⟨0, 0⟩ ⟨0, 0⟩] _ _ m₀ rfl hfill).1).2 ⟨_, hfaults⟩
  exact ⟨src, m, hsrc, (herror _).2 ⟨_, _, _, m₀, rfl, hchecked, hfill, hrefused, hfaults⟩, hm,
    hpairs⟩

end TreeScript.Mapping
