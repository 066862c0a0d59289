/-
**Pairing the nodes of two subtrees.**

The nodes of two subtrees are paired by walking both in pre-order.  Nothing in the two lists of
nodes says where a branch ends; but isomorphic subtrees have walks of one length, branch for branch,
so that the pairs are those of nodes at the same place of the two subtrees.  And since no node is met
twice in a walk, a pair is never refused on account of the pairs added before it in the same call.

Main definitions:

* `TreeScript.Mapping.Parallel` — pairs of the nodes at the same relative paths.

Main results:

* `TreeScript.Tree.Alike.walks` — **the walks of isomorphic subtrees go down in parallel**;
* `TreeScript.Mapping.foldl_keep_eq_filter` — which pairs of two walks are kept;
* `TreeScript.Mapping.addSubtrees_pairs` — **the pairs that a call for two subtrees adds**.
-/

import TreeScript.Proofs.Arena.Correspondence
import TreeScript.Proofs.Mapping.Checked
import TreeScript.Proofs.Tree.ChildLists

set_option relaxedAutoImplicit false
set_option autoImplicit false

namespace TreeScript

/-! ### The walks of isomorphic subtrees -/

/-- Lists that are put together from lists of equal lengths, one by one, are paired piece by
piece. -/
theorem zip_flatMap {σ τ υ ω : Type} {f : σ → List υ} {g : τ → List ω} {l : List σ} {l' : List τ}
    (h : List.Forall₂ (fun x y => (f x).length = (g y).length) l l') :
    (l.flatMap f).zip (l'.flatMap g) = (l.zip l').flatMap fun p => (f p.1).zip (g p.2) := by
  induction h with
  | nil => rfl
  | cons hxy _ ih =>
      rw [List.flatMap_cons, List.flatMap_cons, List.zip_append hxy, ih, List.zip_cons_cons,
        List.flatMap_cons]

theorem length_flatMap_eq {σ τ υ ω : Type} {f : σ → List υ} {g : τ → List ω} {l : List σ}
    {l' : List τ} (h : List.Forall₂ (fun x y => (f x).length = (g y).length) l l') :
    (l.flatMap f).length = (l'.flatMap g).length := by
  induction h with
  | nil => rfl
  | cons hxy _ ih =>
      rw [List.flatMap_cons, List.flatMap_cons, List.length_append, List.length_append, hxy, ih]

namespace Tree

variable {t u : Tree} {x y : NodeId}

/-- **The walks of isomorphic subtrees go down in parallel**: they have one length, and the children
of nodes at one place of the two walks are, one by one, at one place as well. -/
theorem Alike.walks (ht : t.WellFormed) (hu : u.WellFormed) (hx : t.arena.isLive x)
    (hy : u.arena.isLive y) (h : t.Alike u x y) :
    (t.arena.preorder x).length = (u.arena.preorder y).length ∧
      Arena.CopiedBy t.arena.children t.arena.data?
        ((t.arena.preorder x).zip (u.arena.preorder y)) u.arena := by
  revert y
  refine ht.arena.children_induction (P := fun x => ∀ {y}, u.arena.isLive y → t.Alike u x y →
    (t.arena.preorder x).length = (u.arena.preorder y).length ∧
      Arena.CopiedBy t.arena.children t.arena.data?
        ((t.arena.preorder x).zip (u.arena.preorder y)) u.arena) ?_ x hx
  intro x hx ih y hy h
  obtain ⟨hdata, hchildren⟩ := (alike_iff ht hu hx hy).1 h
  have hlive : ∀ k ∈ u.arena.children y, u.arena.isLive k := fun k hk =>
    hu.arena.isLive_of_mem hy hk
  -- the branches, one by one
  have hbranches : List.Forall₂ (fun c k => t.arena.isLive c ∧ u.arena.isLive k ∧
      (t.arena.preorder c).length = (u.arena.preorder k).length ∧
      Arena.CopiedBy t.arena.children t.arena.data?
        ((t.arena.preorder c).zip (u.arena.preorder k)) u.arena)
      (t.arena.children x) (u.arena.children y) := by
    have hmem := forall₂_and_mem (forall₂_and_mem hchildren fun c hc => hc).flip hlive
    refine hmem.flip.imp fun c k hck => ?_
    obtain ⟨⟨halike, hc⟩, hk⟩ := hck
    exact ⟨ht.arena.isLive_of_mem hx hc, hk, ih c hc hk halike⟩
  have hlength := hbranches.imp fun c k hck => hck.2.2.1
  obtain ⟨-, hbranch⟩ := List.forall₂_iff_zip.1 hbranches
  rw [ht.arena.preorder_eq hx, hu.arena.preorder_eq hy, List.zip_cons_cons, zip_flatMap hlength,
    List.length_cons, List.length_cons, length_flatMap_eq hlength]
  refine ⟨rfl, fun k n hkn => ?_⟩
  rcases List.mem_cons.1 hkn with he | hkn
  · -- the tops, whose children are the tops of the branches
    obtain ⟨rfl, rfl⟩ := Prod.mk.inj he
    refine ⟨hdata.symm, List.forall₂_iff_zip.2 ⟨hchildren.length_eq, fun {c d} hcd => ?_⟩⟩
    obtain ⟨hc, hd, -⟩ := hbranch hcd
    refine List.mem_cons_of_mem _ (List.mem_flatMap.2 ⟨(c, d), hcd, ?_⟩)
    rw [ht.arena.preorder_eq hc, hu.arena.preorder_eq hd, List.zip_cons_cons]
    exact List.mem_cons_self
  · -- somewhere in a pair of branches
    obtain ⟨⟨c, d⟩, hcd, hmem⟩ := List.mem_flatMap.1 hkn
    obtain ⟨-, -, -, hcopied⟩ := hbranch hcd
    obtain ⟨hkdata, hkchildren⟩ := hcopied k n hmem
    refine ⟨hkdata, hkchildren.imp fun a b hab => ?_⟩
    exact List.mem_cons_of_mem _ (List.mem_flatMap.2 ⟨(c, d), hcd, hab⟩)

end Tree

namespace Mapping

variable {m m' : Mapping} {src dst : Tree} {s d x y : NodeId} {l ps new : List (NodeId × NodeId)}

/-! ### The pairs that are kept -/

/-- A pair of other nodes makes no difference to whether a pair fits. -/
theorem fits_concat {p q : NodeId × NodeId} (h : Apart p q) :
    fits src dst (l ++ [p]) q = fits src dst l q := by
  have h₁ : (p.1 != q.1) = true := bne_iff_ne.2 h.1
  have h₂ : (p.2 != q.2) = true := bne_iff_ne.2 h.2
  simp [fits, h₁, h₂]

/-- **Of pairs that have no node in common those are kept that fit with the pairs kept before.** -/
theorem foldl_keep_eq_filter (h : ps.Pairwise Apart) :
    ps.foldl (keep src dst) l = l ++ ps.filter (fits src dst l) := by
  induction ps generalizing l with
  | nil => simp
  | cons p ps ih =>
      obtain ⟨hp, hps⟩ := List.pairwise_cons.1 h
      rw [List.foldl_cons, keep, List.filter_cons]
      by_cases hfit : fits src dst l p
      · have hrest : ps.filter (fits src dst (l ++ [p])) = ps.filter (fits src dst l) :=
          List.filter_congr fun q hq => fits_concat (hp q hq)
        rw [if_pos hfit, if_pos hfit, ih hps, hrest, List.append_assoc]
        rfl
      · rw [if_neg hfit, if_neg hfit, ih hps]

/-! ### Pairs at the same place -/

/-- **The pairs of the nodes of two subtrees at the same relative paths**, in pre-order. -/
structure Parallel (src dst : Tree) (s d : NodeId) (ps : List (NodeId × NodeId)) : Prop where
  /-- There is one pair for each node of the one subtree and of the other, -/
  size_src : src.size s = .ok ps.length
  size_dst : dst.size d = .ok ps.length
  /-- in pre-order. -/
  descendants_src : src.descendants s = .ok (ps.map Prod.fst)
  descendants_dst : dst.descendants d = .ok (ps.map Prod.snd)
  /-- The same child indices lead to both nodes of a pair, and to no others. -/
  mem_iff : ∀ x y, (x, y) ∈ ps ↔
    ∃ path, src.arena.descend s path = some x ∧ dst.arena.descend d path = some y
  /-- Parents are paired with parents, and the two nodes are the same child of them. -/
  parent : ∀ x y, (x, y) ∈ ps → (x, y) ≠ (s, d) → ∃ p q, ∃ i : Nat, src.parent? x = .ok (some p) ∧
    dst.parent? y = .ok (some q) ∧ (p, q) ∈ ps ∧ src.child? p i = .ok (some x) ∧
    dst.child? q i = .ok (some y)
  /-- The two nodes carry the same data. -/
  sameData : ∀ x y, (x, y) ∈ ps → src.sameData x dst y = .ok true

section Parallel

variable (hs : src.WellFormed) (hd : dst.WellFormed) (hls : src.arena.isLive s)
  (hld : dst.arena.isLive d)

include hs hd hls hld

/-- **Walking isomorphic subtrees in step pairs the nodes at the same place.** -/
theorem parallel_of_alike (h : src.Alike dst s d) :
    Parallel src dst s d ((src.arena.preorder s).zip (dst.arena.preorder d)) := by
  obtain ⟨hlength, hcopied⟩ := h.walks hs hd hls hld
  have hfst := List.map_fst_zip hlength.le
  have hsnd := List.map_snd_zip hlength.ge
  generalize hps : (src.arena.preorder s).zip (dst.arena.preorder d) = ps at hcopied hfst hsnd ⊢
  have hlive : ∀ {x y}, (x, y) ∈ ps → src.arena.isLive x ∧ dst.arena.isLive y := by
    intro x y hxy
    have hx : x ∈ src.arena.preorder s := hfst ▸ List.mem_map_of_mem hxy
    have hy : y ∈ dst.arena.preorder d := hsnd ▸ List.mem_map_of_mem hxy
    exact ⟨((hs.arena.mem_preorder_iff hls).1 hx).1, ((hd.arena.mem_preorder_iff hld).1 hy).1⟩
  have hsndLive : ∀ y ∈ ps.map Prod.snd, dst.arena.isLive y := by
    intro y hy
    obtain ⟨x, hxy⟩ := exists_mem_of_snd hy
    exact (hlive hxy).2
  have htop : (s, d) ∈ ps := by
    rw [← hps, hs.arena.preorder_eq hls, hd.arena.preorder_eq hld, List.zip_cons_cons]
    exact List.mem_cons_self
  exact
    { size_src := by rw [Tree.size_eq_ok hls, ← hfst, List.length_map]
      size_dst := by rw [Tree.size_eq_ok hld, ← hsnd, List.length_map]
      descendants_src := by rw [Tree.descendants_eq_ok hls, hfst]
      descendants_dst := by rw [Tree.descendants_eq_ok hld, hsnd]
      mem_iff := fun x y => hcopied.mem_iff_descend hs.arena hd.arena hsndLive hls hfst htop
      parent := by
        intro x y hxy hne
        have hxs : x ≠ s := by
          rintro rfl
          exact hne (Prod.ext rfl
            (snd_unique_of_nodup (hfst ▸ hs.arena.nodup_preorder hls) hxy htop))
        obtain ⟨p, q, i, hp, hpq, hq, hi, hj⟩ :=
          hcopied.exists_parent hs.arena hd.arena hsndLive hls hfst hxy hxs
        refine ⟨p, q, i, ?_, ?_, hpq, ?_, ?_⟩
        · rw [Tree.parent?_eq_ok (hlive hxy).1, hp]
        · rw [Tree.parent?_eq_ok (hlive hxy).2, hq]
        · rw [Tree.child?_eq_ok (hlive hpq).1, hi]
        · rw [Tree.child?_eq_ok (hlive hpq).2, hj]
      sameData := by
        intro x y hxy
        obtain ⟨e, he⟩ := Arena.exists_data?_of_isLive (hlive hxy).1
        have he' : dst.arena.data? y = some e := (hcopied x y hxy).1.trans he
        rw [Tree.sameData, Tree.data_eq_ok he, Tree.data_eq_ok he', bind_ok, bind_ok,
          beq_self_eq_true]
        rfl }

end Parallel

/-- Nodes with the same data have the same type. -/
theorem sameKind_of_sameData (hx : src.arena.isLive x) (hy : dst.arena.isLive y)
    (h : src.sameData x dst y = .ok true) : sameKind src dst (x, y) := by
  obtain ⟨e, he⟩ := Arena.exists_data?_of_isLive hx
  obtain ⟨e', he'⟩ := Arena.exists_data?_of_isLive hy
  rw [Tree.sameData, Tree.data_eq_ok he, Tree.data_eq_ok he', bind_ok, bind_ok] at h
  obtain rfl := eq_of_beq (pure_eq_ok.1 h)
  simp [sameKind, Tree.kind_eq_ok he, Tree.kind_eq_ok he']

/-! ### What a call adds -/

/-- **The pairs that a call for two subtrees adds.**  Of the pairs of two walks, up to the end of the
shorter one, those are added whose nodes had no counterparts before the call and have the same type.
If the subtrees are isomorphic and none of their nodes had a counterpart, the call also passes all
checks, and what it adds are the pairs of the nodes at the same relative paths, one for each node. -/
theorem addSubtrees_pairs (hs : src.Built) (hd : dst.Built) (hm : Filled src dst m)
    (hls : src.contains s) (hld : dst.contains d) :
    (∃ m' ns ks, m.addSubtrees s d = .ok m' ∧ m'.Agreement ∧ src.descendants s = .ok ns ∧
      dst.descendants d = .ok ks ∧ m'.pairs = m.pairs ++ (ns.zip ks).filter fun p =>
        sameKind src dst p && !m.hasSrc p.1 && !m.hasDst p.2) ∧
    (src.isIsomorphic s dst d = .ok true → m.isSrcClean s = .ok true →
      m.isDstClean d = .ok true → ∃ m' new, m.addSubtrees s d = .ok m' ∧
        m.addSubtreesChecked s d = .ok m' ∧ m'.pairs = m.pairs ++ new ∧
        Parallel src dst s d new) := by
  have hs := hs.wellFormed
  have hd := hd.wellFormed
  have hls := hs.contains_iff.1 hls
  have hld := hd.contains_iff.1 hld
  have hkept := hm.kept hs hd
  obtain rfl := hkept.src_eq
  obtain rfl := hkept.dst_eq
  obtain ⟨m', hadd, hkept'⟩ := hkept.exists_perform hs hd (.subtrees s d) hls hld
  have hstep := inStep_eq_ok hls hld
  obtain ⟨hapart, hlive⟩ := walks_apart hs hd hls hld hstep
  have hpairs := hkept'.pairs_eq
  rw [Request.attempts, foldl_keep_eq_filter hapart] at hpairs
  refine ⟨⟨m', _, _, hadd, hkept'.agreement hs hd, Tree.descendants_eq_ok hls,
    Tree.descendants_eq_ok hld, ?_⟩, fun halike hsrc hdst => ?_⟩
  · rw [hpairs]
    refine congrArg (m.pairs ++ ·) (List.filter_congr fun p hp => ?_)
    exact hkept.fits_eq (hlive p hp).1 (hlive p hp).2
  · have hparallel := parallel_of_alike hs hd hls hld halike
    -- every pair of the walks fits
    have hfits : ∀ p ∈ (m.src.arena.preorder s).zip (m.dst.arena.preorder d),
        fits m.src m.dst m.pairs p := by
      intro p hp
      obtain ⟨hx, hy⟩ := hlive p hp
      obtain ⟨hps, hpd⟩ := List.of_mem_zip hp
      rw [isSrcClean, Tree.descendants_eq_ok hls] at hsrc
      rw [isDstClean, Tree.descendants_eq_ok hld] at hdst
      have hps := List.all_eq_true.1 (pure_eq_ok.1 hsrc) p.1 hps
      have hpd := List.all_eq_true.1 (pure_eq_ok.1 hdst) p.2 hpd
      rw [hkept.fits_eq hx hy, sameKind_of_sameData hx hy (hparallel.sameData p.1 p.2 hp), hps, hpd]
      rfl
    obtain ⟨m'', hm'', hchecked⟩ := exists_foldlM_add_eq hapart hlive fun p hp => by
      rw [hkept.isAllowed_eq (hlive p hp).1 (hlive p hp).2, hfits p hp]
    have hcall : m.addSubtrees s d = .ok m'' := by rw [addSubtrees, hstep, bind_ok, hm'']
    obtain rfl := Except.ok.inj (hadd.symm.trans hcall)
    refine ⟨m', _, hadd, ?_, by rw [hpairs, List.filter_eq_self.2 hfits], hparallel⟩
    rw [addSubtreesChecked, halike, bind_ok, if_pos rfl, hstep, bind_ok, hchecked]

/-- A tree is paired with one of the same shape in which the leaves were made in the other order. -/
theorem addSubtrees_pairs_reordered : ∃ src t dst m, ∃ b : NodeId,
    Tree.fan ⟨"item", 0⟩ "top" ["a", "b"] = .ok src ∧ Tree.fan ⟨"item", 0⟩ "top" ["b"] = .ok t ∧
    t.insertChild t.root 0 ⟨"item", 0⟩ "a" = .ok (b, dst) ∧
    (empty src dst).addSubtreesChecked src.root dst.root = .ok m ∧
    Parallel src dst src.root dst.root m.pairs ∧
    m.pairs = [(⟨0, 0⟩, ⟨0, 0⟩), (⟨1, 0⟩, ⟨2, 0⟩), (⟨2, 0⟩, ⟨1, 0⟩)] := by
  obtain ⟨src, t, dst, b, m, hsrc, ht, hdst, hls, hld, halike, hcs, hcd, hadd, hpairs⟩ :
      ∃ src t dst, ∃ b : NodeId, ∃ m, Tree.fan ⟨"item", 0⟩ "top" ["a", "b"] = .ok src ∧
        Tree.fan ⟨"item", 0⟩ "top" ["b"] = .ok t ∧
        t.insertChild t.root 0 ⟨"item", 0⟩ "a" = .ok (b, dst) ∧
        src.contains src.root ∧ dst.contains dst.root ∧
        src.isIsomorphic src.root dst dst.root = .ok true ∧
        (empty src dst).isSrcClean src.root = .ok true ∧
        (empty src dst).isDstClean dst.root = .ok true ∧
        (empty src dst).addSubtrees src.root dst.root = .ok m ∧
        m.pairs = [(⟨0, 0⟩, ⟨0, 0⟩), (⟨1, 0⟩, ⟨2, 0⟩), (⟨2, 0⟩, ⟨1, 0⟩)] :=
    ⟨_, _, _, _, _, rfl, rfl, rfl, rfl, rfl, rfl, rfl, rfl, rfl, rfl⟩
  have hd := (Tree.built_fan _ _ _ ht).insertChild hdst
  obtain ⟨m', new, hadd', hchecked, hpairs', hparallel⟩ :=
    (addSubtrees_pairs (Tree.built_fan _ _ _ hsrc) hd Filled.empty hls hld).2 halike hcs hcd
  obtain rfl := Except.ok.inj (hadd.symm.trans hadd')
  obtain rfl : m.pairs = new := hpairs'
  exact ⟨src, t, dst, m, b, hsrc, ht, hdst, hchecked, hparallel, hpairs⟩

end Mapping

end TreeScript
