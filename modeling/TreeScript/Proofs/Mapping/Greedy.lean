/-
**Filling a mapping is keeping pairs greedily.**

A matcher asks for pairs of nodes and for pairs of subtrees, in any order, and is never told which
of them were refused.  What comes of it is described without tables: of the pairs that were asked
for one after the other, each is kept whose nodes have the same type and are in no pair that was
kept before.  The tables answer what the list of kept pairs says, whatever slots the nodes have.

Main definitions:

* `TreeScript.Mapping.fits`, `TreeScript.Mapping.greedy` — **the pairs that are kept**;
* `TreeScript.Mapping.Request`, `TreeScript.Mapping.fill` — calls that add pairs;
* `TreeScript.Mapping.Agreement` — **the tables and the list agree, and it is one to one**.

Main results:

* `TreeScript.Mapping.Kept.exists_add`, `TreeScript.Mapping.Kept.exists_perform` — one pair, and
  one call;
* `TreeScript.Mapping.Filled.kept` — a filled mapping and its list;
* `TreeScript.Mapping.fill_greedy` — **every sequence of calls keeps the pairs greedily, and the
  tables and the list agree**.
-/

import TreeScript.Proofs.Mapping.Pairs
import TreeScript.Proofs.Tree.Built

set_option relaxedAutoImplicit false
set_option autoImplicit false

namespace TreeScript.Mapping

variable {m m' : Mapping} {src dst : Tree} {s x : NodeId} {l ps : List (NodeId × NodeId)}

/-! ### Keeping pairs greedily -/

/-- Whether the nodes of a pair have the same type. -/
def sameKind (src dst : Tree) (p : NodeId × NodeId) : Bool :=
  match src.kind p.1, dst.kind p.2 with
  | .ok k, .ok k' => k == k'
  | _, _ => false

/-- Whether a pair fits with the pairs that have been kept: the types are the same, and neither
node is in one of them. -/
def fits (src dst : Tree) (kept : List (NodeId × NodeId)) (p : NodeId × NodeId) : Bool :=
  sameKind src dst p && kept.all fun q => q.1 != p.1 && q.2 != p.2

/-- The pairs that are kept, with one more if it fits. -/
def keep (src dst : Tree) (kept : List (NodeId × NodeId)) (p : NodeId × NodeId) :
    List (NodeId × NodeId) :=
  if fits src dst kept p then kept ++ [p] else kept

/-- **The pairs of a list that are kept**, from the first to the last. -/
def greedy (src dst : Tree) (attempts : List (NodeId × NodeId)) : List (NodeId × NodeId) :=
  attempts.foldl (keep src dst) []

theorem prefix_keep (kept : List (NodeId × NodeId)) (p : NodeId × NodeId) :
    kept <+: keep src dst kept p := by
  unfold keep
  split
  case isTrue => exact List.prefix_append _ _
  case isFalse => exact List.prefix_refl _

/-- What is kept once stays, and in its place. -/
theorem prefix_foldl_keep (kept ps : List (NodeId × NodeId)) :
    kept <+: ps.foldl (keep src dst) kept := by
  induction ps generalizing kept with
  | nil => exact List.prefix_refl _
  | cons p ps ih => exact (prefix_keep kept p).trans (ih _)

/-! ### Calls -/

/-- A call that adds pairs. -/
inductive Request where
  /-- One pair of nodes. -/
  | pair (s d : NodeId)
  /-- The pairs of two subtrees. -/
  | subtrees (s d : NodeId)
deriving DecidableEq, Repr

namespace Request

/-- The source node that a call names. -/
def source : Request → NodeId
  | pair s _ => s
  | subtrees s _ => s

/-- The destination node that a call names. -/
def target : Request → NodeId
  | pair _ d => d
  | subtrees _ d => d

/-- The pairs that a call asks for, in order: those of two subtrees are found by walking both in
pre-order, up to the end of the shorter one. -/
def attempts (src dst : Tree) : Request → List (NodeId × NodeId)
  | pair s d => [(s, d)]
  | subtrees s d => (src.arena.preorder s).zip (dst.arena.preorder d)

end Request

/-- A call. -/
def perform (m : Mapping) : Request → Except Fault Mapping
  | .pair s d => m.add s d
  | .subtrees s d => m.addSubtrees s d

/-- The mapping that a sequence of calls makes of the empty one. -/
def fill (src dst : Tree) (requests : List Request) : Except Fault Mapping :=
  requests.foldlM perform (empty src dst)

/-! ### The mapping of the pairs that are kept -/

/-- The mapping between two trees that pairs just the nodes of a list, which are nodes of the
trees, each of them once. -/
structure Kept (src dst : Tree) (l : List (NodeId × NodeId)) (m : Mapping) : Prop
    extends Pairs src dst l m where
  live : ∀ {s x}, (s, x) ∈ l → src.arena.isLive s ∧ dst.arena.isLive x
  nodup_fst : (l.map Prod.fst).Nodup
  nodup_snd : (l.map Prod.snd).Nodup

theorem sameKind_iff (hs : src.arena.isLive s) (hx : dst.arena.isLive x) :
    sameKind src dst (s, x) ↔
      (src.arena.data? s).map NodeData.kind = (dst.arena.data? x).map NodeData.kind := by
  obtain ⟨e, he⟩ := Arena.exists_data?_of_isLive hs
  obtain ⟨e', he'⟩ := Arena.exists_data?_of_isLive hx
  simp [sameKind, Tree.kind_eq_ok he, Tree.kind_eq_ok he', he, he']

theorem all_ne_iff : (l.all fun q => q.1 != s && q.2 != x) ↔
    s ∉ l.map Prod.fst ∧ x ∉ l.map Prod.snd := by
  simp only [List.all_eq_true, Bool.and_eq_true, bne_iff_ne, List.mem_map, not_exists, not_and]
  exact ⟨fun h => ⟨fun q hq => (h q hq).1, fun q hq => (h q hq).2⟩,
    fun h q hq => ⟨h.1 q hq, h.2 q hq⟩⟩

namespace Kept

theorem nil (hs : src.WellFormed) (hd : dst.WellFormed) : Kept src dst [] (empty src dst) where
  toPairs := Pairs.nil hs hd
  live := by simp
  nodup_fst := List.nodup_nil
  nodup_snd := List.nodup_nil

variable (h : Kept src dst l m)

include h

theorem pairs_eq : m.pairs = l := by
  have key : ∀ (ps : List (NodeId × NodeId)) (m : Mapping),
      (ps.foldl (fun m p => m.push p.1 p.2) m).pairs = m.pairs ++ ps := by
    intro ps
    induction ps with
    | nil => simp
    | cons p ps ih =>
        intro m
        rw [List.foldl_cons, ih, push, List.append_assoc]
        rfl
  rw [h.eq, key]
  rfl

theorem source?_iff (hx : dst.arena.isLive x) : m.source? x = some s ↔ (s, x) ∈ l := by
  have hm := h.sound
  constructor
  · intro hs
    obtain ⟨hls, hsx⟩ := hm.left (h.dst_eq ▸ hx) hs
    exact (h.counterpart?_iff (h.src_eq ▸ hls)).1 hsx
  · intro hmem
    have hls := (h.live hmem).1
    exact (hm.right (h.src_eq ▸ hls) ((h.counterpart?_iff hls).2 hmem)).2

theorem hasSrc_iff (hs : src.arena.isLive s) : m.hasSrc s ↔ s ∈ l.map Prod.fst := by
  rw [Mapping.hasSrc_iff]
  constructor
  · rintro ⟨x, hx⟩
    exact List.mem_map_of_mem ((h.counterpart?_iff hs).1 hx)
  · intro hmem
    obtain ⟨x, hx⟩ := exists_mem_of_fst hmem
    exact ⟨x, (h.counterpart?_iff hs).2 hx⟩

theorem hasDst_iff (hx : dst.arena.isLive x) : m.hasDst x ↔ x ∈ l.map Prod.snd := by
  rw [Mapping.hasDst_iff]
  constructor
  · rintro ⟨s, hs⟩
    exact List.mem_map_of_mem ((h.source?_iff hx).1 hs)
  · intro hmem
    obtain ⟨s, hs⟩ := exists_mem_of_snd hmem
    exact ⟨s, (h.source?_iff hx).2 hs⟩

/-- Whether a pair fits, asked of the mapping. -/
theorem fits_eq (hs : src.arena.isLive s) (hx : dst.arena.isLive x) :
    fits src dst l (s, x) = (sameKind src dst (s, x) && !m.hasSrc s && !m.hasDst x) := by
  have hfree : (l.all fun q => q.1 != s && q.2 != x) = (!m.hasSrc s && !m.hasDst x) := by
    rw [Bool.eq_iff_iff, all_ne_iff, ← h.hasSrc_iff hs, ← h.hasDst_iff hx]
    simp
  rw [fits, hfree, Bool.and_assoc]

/-- **A pair is allowed if it fits with the pairs that have been kept.** -/
theorem isAllowed_eq (hs : src.arena.isLive s) (hx : dst.arena.isLive x) :
    m.isAllowed s x = .ok (fits src dst l (s, x)) := by
  obtain ⟨e, he⟩ := Arena.exists_data?_of_isLive hs
  obtain ⟨e', he'⟩ := Arena.exists_data?_of_isLive hx
  rw [isAllowed, h.src_eq, h.dst_eq, Tree.kind_eq_ok he, Tree.kind_eq_ok he', h.fits_eq hs hx,
    sameKind, Tree.kind_eq_ok he, Tree.kind_eq_ok he']
  rfl

/-- **One more pair is kept if it fits.** -/
theorem exists_add (hs : src.arena.isLive s) (hx : dst.arena.isLive x) :
    ∃ m', m.add s x = .ok m' ∧ Kept src dst (keep src dst l (s, x)) m' := by
  by_cases hfit : fits src dst l (s, x)
  · rw [keep, if_pos hfit]
    rw [fits, Bool.and_eq_true, sameKind_iff hs hx, all_ne_iff] at hfit
    obtain ⟨hkind, hns, hnx⟩ := hfit
    obtain ⟨m', hadd, -, hpairs⟩ := h.toPairs.snoc hs hx hkind hns hnx
    refine ⟨m', hadd, { toPairs := hpairs, live := ?_, nodup_fst := ?_, nodup_snd := ?_ }⟩
    · intro s' x' hmem
      rcases List.mem_append.1 hmem with hmem | hmem
      · exact h.live hmem
      · obtain ⟨rfl, rfl⟩ := Prod.mk.inj (List.mem_singleton.1 hmem)
        exact ⟨hs, hx⟩
    · rw [List.map_append]
      exact h.nodup_fst.append (List.nodup_singleton _) (List.disjoint_singleton.2 hns)
    · rw [List.map_append]
      exact h.nodup_snd.append (List.nodup_singleton _) (List.disjoint_singleton.2 hnx)
  · rw [keep, if_neg hfit, add, h.isAllowed_eq hs hx, bind_ok, if_neg hfit]
    exact ⟨m, rfl, h⟩

omit h in
/-- **The pairs of a list are kept greedily.** -/
theorem exists_foldlM (h : Kept src dst l m)
    (hps : ∀ p ∈ ps, src.arena.isLive p.1 ∧ dst.arena.isLive p.2) :
    ∃ m', ps.foldlM (fun m p => m.add p.1 p.2) m = .ok m' ∧
      Kept src dst (ps.foldl (keep src dst) l) m' := by
  induction ps generalizing l m with
  | nil => exact ⟨m, rfl, h⟩
  | cons p ps ih =>
      obtain ⟨⟨hs, hx⟩, hps⟩ := List.forall_mem_cons.1 hps
      obtain ⟨m₁, hadd, h₁⟩ := h.exists_add hs hx
      obtain ⟨m', hm', h'⟩ := ih h₁ hps
      exact ⟨m', by rw [List.foldlM_cons, hadd, bind_ok, hm'], h'⟩

/-- **One call keeps the pairs that it asks for greedily.** -/
theorem exists_perform (hs : src.WellFormed) (hd : dst.WellFormed) (r : Request)
    (hrs : src.arena.isLive r.source) (hrd : dst.arena.isLive r.target) :
    ∃ m', m.perform r = .ok m' ∧
      Kept src dst ((r.attempts src dst).foldl (keep src dst) l) m' := by
  cases r with
  | pair s d => exact h.exists_add hrs hrd
  | subtrees s d =>
      have hlive : ∀ p ∈ (src.arena.preorder s).zip (dst.arena.preorder d),
          src.arena.isLive p.1 ∧ dst.arena.isLive p.2 := by
        intro p hp
        obtain ⟨hps, hpd⟩ := List.of_mem_zip hp
        exact ⟨((hs.arena.mem_preorder_iff hrs).1 hps).1, ((hd.arena.mem_preorder_iff hrd).1 hpd).1⟩
      obtain ⟨m', hm', h'⟩ := exists_foldlM h hlive
      refine ⟨m', ?_, h'⟩
      have hss : src.descendants s = .ok (src.arena.preorder s) := Tree.descendants_eq_ok hrs
      have hds : dst.descendants d = .ok (dst.arena.preorder d) := Tree.descendants_eq_ok hrd
      rw [perform, addSubtrees, inStep, h.src_eq, h.dst_eq, hss, hds]
      exact hm'

omit h in
/-- **A sequence of calls keeps the pairs that they ask for greedily.** -/
theorem exists_performAll (h : Kept src dst l m) (hs : src.WellFormed) (hd : dst.WellFormed)
    {requests : List Request}
    (hr : ∀ r ∈ requests, src.arena.isLive r.source ∧ dst.arena.isLive r.target) :
    ∃ m', requests.foldlM perform m = .ok m' ∧
      Kept src dst ((requests.flatMap (Request.attempts src dst)).foldl (keep src dst) l) m' := by
  induction requests generalizing l m with
  | nil => exact ⟨m, rfl, h⟩
  | cons r requests ih =>
      obtain ⟨⟨hrs, hrd⟩, hr⟩ := List.forall_mem_cons.1 hr
      obtain ⟨m₁, hperform, h₁⟩ := h.exists_perform hs hd r hrs hrd
      obtain ⟨m', hm', h'⟩ := ih h₁ hr
      refine ⟨m', by rw [List.foldlM_cons, hperform, bind_ok, hm'], ?_⟩
      rwa [List.flatMap_cons, List.foldl_append]

end Kept

/-- **A filled mapping pairs just the nodes of its list.** -/
theorem Filled.kept (h : Filled src dst m) (hs : src.WellFormed) (hd : dst.WellFormed) :
    Kept src dst m.pairs m := by
  have hkept : ∃ l, Kept src dst l m := by
    induction h with
    | empty => exact ⟨[], Kept.nil hs hd⟩
    | @add m _ s d _ hls hld hadd ih =>
        obtain ⟨l, hl⟩ := ih
        obtain ⟨m₁, hm₁, h₁⟩ :=
          hl.exists_perform hs hd (.pair s d) (hs.contains_iff.1 hls) (hd.contains_iff.1 hld)
        obtain rfl := Except.ok.inj (hadd.symm.trans hm₁)
        exact ⟨_, h₁⟩
    | @addSubtrees m _ s d _ hls hld hadd ih =>
        obtain ⟨l, hl⟩ := ih
        obtain ⟨m₁, hm₁, h₁⟩ :=
          hl.exists_perform hs hd (.subtrees s d) (hs.contains_iff.1 hls) (hd.contains_iff.1 hld)
        obtain rfl := Except.ok.inj (hadd.symm.trans hm₁)
        exact ⟨_, h₁⟩
  obtain ⟨l, hl⟩ := hkept
  rwa [hl.pairs_eq]

/-! ### The tables and the list -/

/-- **The tables and the list agree, and the correspondence that they describe is one to one** and
respects types. -/
structure Agreement (m : Mapping) : Prop where
  /-- Both tables say what the list says. -/
  counterpart?_iff : ∀ s d, m.src.contains s → (m.counterpart? s = some d ↔ (s, d) ∈ m.pairs)
  source?_iff : ∀ s d, m.dst.contains d → (m.source? d = some s ↔ (s, d) ∈ m.pairs)
  has_iff : ∀ s d, m.src.contains s → (m.has s d ↔ (s, d) ∈ m.pairs)
  /-- No node is in two pairs. -/
  nodup_fst : (m.pairs.map Prod.fst).Nodup
  nodup_snd : (m.pairs.map Prod.snd).Nodup
  /-- Pairs are pairs of nodes of the trees, of the same type. -/
  contains : ∀ p ∈ m.pairs, m.src.contains p.1 ∧ m.dst.contains p.2
  kind : ∀ p ∈ m.pairs, ∃ k, m.src.kind p.1 = .ok k ∧ m.dst.kind p.2 = .ok k
  /-- There are as many pairs as nodes that have a counterpart, in either tree. -/
  size_eq : m.size = m.pairs.length
  size_src : m.size = m.src.preorder.countP m.hasSrc
  size_dst : m.size = m.dst.preorder.countP m.hasDst
  /-- A subtree is untouched if no pair has a node in it. -/
  isSrcClean : ∀ s, m.src.contains s → ∃ below clean, m.src.descendants s = .ok below ∧
    m.isSrcClean s = .ok clean ∧ (clean = true ↔ ∀ p ∈ m.pairs, p.1 ∉ below)
  isDstClean : ∀ d, m.dst.contains d → ∃ below clean, m.dst.descendants d = .ok below ∧
    m.isDstClean d = .ok clean ∧ (clean = true ↔ ∀ p ∈ m.pairs, p.2 ∉ below)

/-- As many nodes of a tree have a property as there are in a list of those that have it. -/
theorem countP_preorder_eq {t : Tree} (ht : t.WellFormed) {P : NodeId → Bool} {ns : List NodeId}
    (hnd : ns.Nodup) (hmem : ∀ n, n ∈ ns ↔ t.arena.isLive n ∧ P n) :
    t.preorder.countP P = ns.length := by
  have hpre : t.preorder.Nodup := ht.arena.nodup_preorder ht.isLive_root
  rw [List.countP_eq_length_filter]
  refine ((List.perm_ext_iff_of_nodup (hpre.filter _) hnd).2 fun n => ?_).length_eq
  rw [List.mem_filter, ht.mem_preorder_iff, hmem]

/-- A list is free of a property if it is free of the elements of a list of those that have it. -/
theorem all_not_iff {ns : List NodeId} {P : NodeId → Bool} (ms : List NodeId)
    (h : ∀ n ∈ ns, P n ↔ n ∈ ms) : (ns.all fun n => !P n) ↔ ∀ k ∈ ms, k ∉ ns := by
  rw [List.all_eq_true]
  constructor
  · intro hall k hk hmem
    simpa [(h k hmem).2 hk] using hall k hmem
  · intro hall n hn
    have hnot : ¬ P n := fun hp => hall n ((h n hn).1 hp) hn
    simpa using hnot

/-- **The mapping of the pairs that are kept answers what the list of them says.** -/
theorem Kept.agreement (h : Kept src dst l m) (hs : src.WellFormed) (hd : dst.WellFormed) :
    m.Agreement := by
  obtain rfl := h.pairs_eq
  obtain rfl := h.src_eq
  obtain rfl := h.dst_eq
  exact
    { counterpart?_iff := fun s d hls => h.counterpart?_iff (hs.contains_iff.1 hls)
      source?_iff := fun s d hld => h.source?_iff (hd.contains_iff.1 hld)
      has_iff := fun s d hls => has_iff.trans (h.counterpart?_iff (hs.contains_iff.1 hls))
      nodup_fst := h.nodup_fst
      nodup_snd := h.nodup_snd
      contains := fun p hp =>
        ⟨hs.contains_iff.2 (h.live hp).1, hd.contains_iff.2 (h.live hp).2⟩
      kind := by
        intro p hp
        obtain ⟨hls, hld⟩ := h.live hp
        obtain ⟨e, he⟩ := Arena.exists_data?_of_isLive hls
        obtain ⟨e', he'⟩ := Arena.exists_data?_of_isLive hld
        have hkind := h.sound.kind hls ((h.counterpart?_iff hls).2 hp)
        rw [he, he', Option.map_some, Option.map_some, Option.some_inj] at hkind
        exact ⟨e.kind, Tree.kind_eq_ok he, hkind ▸ Tree.kind_eq_ok he'⟩
      size_eq := rfl
      size_src := by
        rw [countP_preorder_eq hs h.nodup_fst, List.length_map, size]
        intro n
        refine ⟨fun hn => ?_, fun hn => (h.hasSrc_iff hn.1).1 hn.2⟩
        obtain ⟨x, hx⟩ := exists_mem_of_fst hn
        exact ⟨(h.live hx).1, (h.hasSrc_iff (h.live hx).1).2 hn⟩
      size_dst := by
        rw [countP_preorder_eq hd h.nodup_snd, List.length_map, size]
        intro n
        refine ⟨fun hn => ?_, fun hn => (h.hasDst_iff hn.1).1 hn.2⟩
        obtain ⟨s, hs⟩ := exists_mem_of_snd hn
        exact ⟨(h.live hs).2, (h.hasDst_iff (h.live hs).2).2 hn⟩
      isSrcClean := by
        intro s hls
        have hls := hs.contains_iff.1 hls
        refine ⟨_, _, Tree.descendants_eq_ok hls,
          by rw [isSrcClean, Tree.descendants_eq_ok hls]; rfl, ?_⟩
        rw [all_not_iff (m.pairs.map Prod.fst), List.forall_mem_map]
        exact fun n hn => h.hasSrc_iff ((hs.arena.mem_preorder_iff hls).1 hn).1
      isDstClean := by
        intro d hld
        have hld := hd.contains_iff.1 hld
        refine ⟨_, _, Tree.descendants_eq_ok hld,
          by rw [isDstClean, Tree.descendants_eq_ok hld]; rfl, ?_⟩
        rw [all_not_iff (m.pairs.map Prod.snd), List.forall_mem_map]
        exact fun n hn => h.hasDst_iff ((hd.arena.mem_preorder_iff hld).1 hn).1 }

/-! ### Main result -/

/-- **Filling a mapping keeps pairs greedily.**  Whatever calls add pairs of nodes and of subtrees
of two trees, in any order: none of them fails, the pairs that are kept are those of the greedy
walk over all pairs that were asked for, and the tables and the list agree.  At any earlier moment
this is so as well, and the pairs of then are the first of the pairs of now, and are looked up
alike. -/
theorem fill_greedy (hs : src.Built) (hd : dst.Built) (requests : List Request)
    (hr : ∀ r ∈ requests, src.contains r.source ∧ dst.contains r.target) :
    ∃ m, fill src dst requests = .ok m ∧ m.src = src ∧ m.dst = dst ∧
      m.pairs = greedy src dst (requests.flatMap (Request.attempts src dst)) ∧ m.Agreement ∧
      ∀ before after, requests = before ++ after → ∃ m₀, fill src dst before = .ok m₀ ∧
        m₀.Agreement ∧ m₀.pairs <+: m.pairs ∧
        (∀ s d, src.contains s → m₀.counterpart? s = some d → m.counterpart? s = some d) ∧
        ∀ s d, dst.contains d → m₀.source? d = some s → m.source? d = some s := by
  have hs := hs.wellFormed
  have hd := hd.wellFormed
  have hlive : ∀ r ∈ requests, src.arena.isLive r.source ∧ dst.arena.isLive r.target :=
    fun r hmem => (hr r hmem).imp hs.contains_iff.1 hd.contains_iff.1
  obtain ⟨m, hfill, hm⟩ := (Kept.nil hs hd).exists_performAll hs hd hlive
  refine ⟨m, hfill, hm.src_eq, hm.dst_eq, hm.pairs_eq, hm.agreement hs hd, ?_⟩
  rintro before after rfl
  obtain ⟨m₀, hfill₀, hm₀⟩ := (Kept.nil hs hd).exists_performAll hs hd
    fun r hmem => hlive r (List.mem_append_left after hmem)
  have hprefix : m₀.pairs <+: m.pairs := by
    rw [hm.pairs_eq, hm₀.pairs_eq, List.flatMap_append, List.foldl_append]
    exact prefix_foldl_keep _ _
  refine ⟨m₀, hfill₀, hm₀.agreement hs hd, hprefix, ?_, ?_⟩
  · intro s d hls hsd
    have hls := hs.contains_iff.1 hls
    have hmem := hprefix.subset (hm₀.pairs_eq ▸ (hm₀.counterpart?_iff hls).1 hsd)
    exact (hm.counterpart?_iff hls).2 (hm.pairs_eq ▸ hmem)
  · intro s d hld hds
    have hld := hd.contains_iff.1 hld
    have hmem := hprefix.subset (hm₀.pairs_eq ▸ (hm₀.source?_iff hld).1 hds)
    exact (hm.source?_iff hld).2 (hm.pairs_eq ▸ hmem)

/-- A pair across, then all pairs from the roots on, of which one is refused at each of the nodes
that have been paired. -/
def overlapping : List Request := [.pair ⟨1, 0⟩ ⟨2, 0⟩, .subtrees ⟨0, 0⟩ ⟨0, 0⟩, .pair ⟨2, 0⟩ ⟨1, 0⟩]

/-- What was paired across stays, the roots are paired, and at last the nodes that are left. -/
theorem fill_greedy_overlapping : ∃ src dst m,
    Tree.fan ⟨"item", 0⟩ "old" ["a", "b"] = .ok src ∧
    Tree.fan ⟨"item", 0⟩ "new" ["b", "a"] = .ok dst ∧
    (∀ r ∈ overlapping, src.contains r.source ∧ dst.contains r.target) ∧
    fill src dst overlapping = .ok m ∧
    m.pairs = [(⟨1, 0⟩, ⟨2, 0⟩), (⟨0, 0⟩, ⟨0, 0⟩), (⟨2, 0⟩, ⟨1, 0⟩)] ∧ m.Agreement := by
  have hcalls := fill_greedy (Tree.built_fan ⟨"item", 0⟩ "old" ["a", "b"] rfl)
    (Tree.built_fan ⟨"item", 0⟩ "new" ["b", "a"] rfl) overlapping (by decide)
  obtain ⟨m, hfill, -, -, hpairs, hm, -⟩ := hcalls
  exact ⟨_, _, m, rfl, rfl, by decide, hfill, hpairs.trans (by decide), hm⟩

end TreeScript.Mapping
