/-
**Scripts do not depend on numbers.**

A tree can come by its nodes in many ways, and the same pairs can be added in any order.  Neither
shows in the script: for isomorphic trees, and a mapping of the nodes at the same places, it is
the same script, with every node under its other name.

Main results:

* `TreeScript.Mapping.renamed_of_pairs` — mappings with the same pairs, under other names and in
  any order, are the same;
* `TreeScript.Mapping.Renamed.editScript` — **so are their scripts**;
* `TreeScript.Mapping.editScript_renumbered` — **the script does not depend on how the nodes are
  numbered nor on the order of the pairs**.
-/

import TreeScript.Proofs.Draft.Renaming
import TreeScript.Proofs.EditScript.Quiet
import TreeScript.Proofs.Mapping.Greedy

set_option relaxedAutoImplicit false
set_option autoImplicit false

namespace TreeScript

variable {φ ψ : NodeId → NodeId} {m m' : Mapping} {src src' dst dst' : Tree}

/-- Under other names an action does what it did. -/
@[simp] theorem Action.isMoveOrUpdate_renamed (a : Action) :
    (a.renamed φ ψ).isMoveOrUpdate = a.isMoveOrUpdate := by
  cases a <;> rfl

namespace Mapping

/-! ### The same pairs -/

/-- **Mappings with the same pairs under other names are the same**: what is found for a node
follows from the pairs alone, and not from their order. -/
theorem renamed_of_pairs (hs : src.Renumbered src' φ) (hd : dst.Renumbered dst' ψ)
    (hm : Filled src dst m) (hm' : Filled src' dst' m')
    (hp : ∀ p, p ∈ m'.pairs ↔ p ∈ m.pairs.map (Prod.map φ ψ)) : m.Renamed φ ψ m' := by
  have hk := hm.kept hs.left hd.left
  have hk' := hm'.kept hs.right hd.right
  obtain ⟨hsound, rfl, rfl⟩ := hm.sound hs.left hd.left
  obtain ⟨-, rfl, rfl⟩ := hm'.sound hs.right hd.right
  refine { src := hs, dst := hd, sound := hsound, counterpart? := ?_, source? := ?_ }
  · intro s hls
    refine Option.ext fun y => ?_
    rw [hk'.counterpart?_iff (hs.isLive hls), hp, List.mem_map, Option.map_eq_some_iff]
    constructor
    · rintro ⟨⟨s', x⟩, hmem, he⟩
      obtain ⟨hes, rfl⟩ := Prod.mk.inj he
      obtain rfl := hs.injOn (hk.live hmem).1 hls hes
      exact ⟨x, (hk.counterpart?_iff hls).2 hmem, rfl⟩
    · rintro ⟨x, hx, rfl⟩
      exact ⟨(s, x), (hk.counterpart?_iff hls).1 hx, rfl⟩
  · intro x hlx
    refine Option.ext fun t => ?_
    rw [hk'.source?_iff (hd.isLive hlx), hp, List.mem_map, Option.map_eq_some_iff]
    constructor
    · rintro ⟨⟨s, x'⟩, hmem, he⟩
      obtain ⟨rfl, hex⟩ := Prod.mk.inj he
      obtain rfl := hd.injOn (hk.live hmem).2 hlx hex
      exact ⟨s, (hk.source?_iff hlx).2 hmem, rfl⟩
    · rintro ⟨s, hs, rfl⟩
      exact ⟨(s, x), (hk.source?_iff hlx).1 hs, rfl⟩

/-! ### The same script -/

namespace Renamed

variable (hm : m.Renamed φ ψ m')

include hm

theorem rootsPaired : m'.rootsPaired = m.rootsPaired := by
  have hroot := hm.dst.left.isLive_root
  rw [Mapping.rootsPaired, ← hm.dst.root, ← hm.src.root, hm.source? hroot, Mapping.rootsPaired,
    Bool.eq_iff_iff, beq_iff_eq, beq_iff_eq, Option.map_eq_some_iff]
  constructor
  · rintro ⟨s, hs, he⟩
    rw [hs, hm.src.injOn (hm.sound.left hroot hs).1 hm.src.left.isLive_root he]
  · exact fun h => ⟨m.src.root, h, rfl⟩

/-- The draft for counterparts at the roots succeeds for both, and tells the same. -/
theorem exists_draft (hr : m.source? m.dst.root = some m.src.root) : ∃ d d',
    m.draft false = .ok d ∧ m'.draft false = .ok d' ∧ d.Renamed φ ψ m d' := by
  obtain ⟨d₀, hd₀, h₀⟩ := Draft.exists_aligned hm.sound hr
  obtain ⟨d, hd, -⟩ := Draft.exists_finished hm.sound hr
  obtain ⟨d₀', hd₀', hren₀⟩ := hm.align false d₀ hd₀
  rw [Draft.draft_eq, hd₀, bind_ok] at hd
  obtain ⟨d', hd', hren⟩ := hren₀.prune hm h₀ hr d hd
  refine ⟨d, d', ?_, ?_, hren⟩
  · rw [Draft.draft_eq, hd₀, bind_ok, hd]
  · rw [Draft.draft_eq, hd₀', bind_ok, hd']

/-- **The script is the same, under the new names**, quiet or not. -/
theorem editScript (quiet : Bool) : ∃ script, m.editScript quiet = .ok script ∧
    m'.editScript quiet = .ok (script.map (Action.renamed φ ψ)) := by
  have hfull : ∃ script, m.editScript false = .ok script ∧
      m'.editScript false = .ok (script.map (Action.renamed φ ψ)) := by
    unfold Mapping.editScript
    rw [hm.rootsPaired]
    by_cases hr : m.rootsPaired
    · obtain ⟨d, d', hd, hd', hren⟩ := hm.exists_draft (beq_iff_eq.1 hr)
      rw [if_pos hr, if_pos hr, hd, hd']
      exact ⟨d.script, rfl, congrArg Except.ok hren.script⟩
    · rw [if_neg hr, if_neg hr]
      refine ⟨m.replacement, rfl, congrArg Except.ok ?_⟩
      rw [replacement, ← hm.src.root, ← hm.dst.root]
      rfl
  obtain ⟨script, hscript, hscript'⟩ := hfull
  cases quiet with
  | false => exact ⟨script, hscript, hscript'⟩
  | true =>
      -- what a quiet script leaves out does not depend on names
      refine ⟨script.filter fun a => !a.isMoveOrUpdate, ?_, ?_⟩
      · rw [editScript_hushed, hscript]
        rfl
      · rw [editScript_hushed, hscript']
        refine congrArg Except.ok ?_
        rw [List.filter_map]
        simp [Function.comp_def]

end Renamed

/-! ### Main result -/

/-- **The script does not depend on how the nodes are numbered nor on the order of the pairs.**
Isomorphic trees can be renumbered into each other, the names are one to one, and the script for
the same pairs under other names is the same script under these names, quiet or not. -/
theorem editScript_renumbered (hs : src.Built) (hs' : src'.Built) (hd : dst.Built)
    (hd' : dst'.Built) (hsrc : src.isomorphicTo src' = .ok true)
    (hdst : dst.isomorphicTo dst' = .ok true) :
    (∃ φ, src.Renumbering src' φ) ∧ (∃ ψ, dst.Renumbering dst' ψ) ∧
      ∀ φ ψ, src.Renumbering src' φ → dst.Renumbering dst' ψ →
        Set.BijOn φ {n | src.contains n} {n | src'.contains n} ∧
        Set.BijOn ψ {n | dst.contains n} {n | dst'.contains n} ∧
        ∀ m m', Filled src dst m → Filled src' dst' m' →
          (∀ p, p ∈ m'.pairs ↔ p ∈ m.pairs.map (Prod.map φ ψ)) →
          ∀ quiet, ∃ script, m.editScript quiet = .ok script ∧
            m'.editScript quiet = .ok (script.map (Action.renamed φ ψ)) := by
  have hs := hs.wellFormed
  have hs' := hs'.wellFormed
  have hd := hd.wellFormed
  have hd' := hd'.wellFormed
  refine ⟨Tree.exists_renumbering hs hs' hsrc, Tree.exists_renumbering hd hd' hdst, ?_⟩
  intro φ ψ hφ hψ
  have hφ := Tree.renumbered hs hs' hsrc hφ
  have hψ := Tree.renumbered hd hd' hdst hψ
  refine ⟨hφ.bijOn, hψ.bijOn, fun m m' hm hm' hp quiet => ?_⟩
  exact (renamed_of_pairs hφ hψ hm hm' hp).editScript quiet

/-- The same pairs as `crossing`, in another order, for a source in which the first leaf has been
replaced and a destination whose leaves have been made in another order. -/
def crossingElsewhere : List (NodeId × NodeId) :=
  [(⟨1, 1⟩, ⟨2, 0⟩), (⟨2, 0⟩, ⟨1, 0⟩), (⟨0, 0⟩, ⟨0, 0⟩)]

/-- Two leaves change places in trees with other histories. -/
theorem editScript_renumbered_elsewhere : ∃ src dst src₁ src₂ src' dst₁ dst' m m' φ ψ,
    Tree.fan ⟨"item", 0⟩ "old" ["a", "b"] = .ok src ∧
    Tree.fan ⟨"item", 0⟩ "new" ["b", "a"] = .ok dst ∧
    Tree.fan ⟨"item", 0⟩ "old" ["gone", "a"] = .ok src₁ ∧
    src₁.removeChild src₁.root 0 = .ok (some ⟨1, 0⟩, src₂) ∧
    src₂.addChild src₂.root ⟨"item", 0⟩ "b" = .ok (⟨1, 1⟩, src') ∧
    Tree.fan ⟨"item", 0⟩ "new" ["a"] = .ok dst₁ ∧
    dst₁.insertChild dst₁.root 0 ⟨"item", 0⟩ "b" = .ok (⟨2, 0⟩, dst') ∧
    src.isomorphicTo src' = .ok true ∧ dst.isomorphicTo dst' = .ok true ∧
    src.Renumbering src' φ ∧ dst.Renumbering dst' ψ ∧ φ ⟨2, 0⟩ = ⟨1, 1⟩ ∧
    pairing src dst crossing = .ok m ∧ pairing src' dst' crossingElsewhere = .ok m' ∧
    ∀ quiet, ∃ script, m.editScript quiet = .ok script ∧
      m'.editScript quiet = .ok (script.map (Action.renamed φ ψ)) := by
  let φ : NodeId → NodeId := fun n =>
    if n = ⟨1, 0⟩ then ⟨2, 0⟩ else if n = ⟨2, 0⟩ then ⟨1, 1⟩ else n
  let ψ : NodeId → NodeId := fun n =>
    if n = ⟨1, 0⟩ then ⟨2, 0⟩ else if n = ⟨2, 0⟩ then ⟨1, 0⟩ else n
  obtain ⟨src, dst, src₁, src₂, src', dst₁, dst', m, m', hsrc, hdst, hsrc₁, hsrc₂, hsrc', hdst₁,
      hdst', hiso, hiso', hφ, hψ, hm, hm', hlive, hlive', hperm⟩ :
      ∃ src dst src₁ src₂ src' dst₁ dst' m m',
        Tree.fan ⟨"item", 0⟩ "old" ["a", "b"] = .ok src ∧
        Tree.fan ⟨"item", 0⟩ "new" ["b", "a"] = .ok dst ∧
        Tree.fan ⟨"item", 0⟩ "old" ["gone", "a"] = .ok src₁ ∧
        src₁.removeChild src₁.root 0 = .ok (some ⟨1, 0⟩, src₂) ∧
        src₂.addChild src₂.root ⟨"item", 0⟩ "b" = .ok (⟨1, 1⟩, src') ∧
        Tree.fan ⟨"item", 0⟩ "new" ["a"] = .ok dst₁ ∧
        dst₁.insertChild dst₁.root 0 ⟨"item", 0⟩ "b" = .ok (⟨2, 0⟩, dst') ∧
        src.isomorphicTo src' = .ok true ∧ dst.isomorphicTo dst' = .ok true ∧
        src.preorder.map φ = src'.preorder ∧ dst.preorder.map ψ = dst'.preorder ∧
        pairing src dst crossing = .ok m ∧ pairing src' dst' crossingElsewhere = .ok m' ∧
        (∀ p ∈ crossing, src.contains p.1 ∧ dst.contains p.2) ∧
        (∀ p ∈ crossingElsewhere, src'.contains p.1 ∧ dst'.contains p.2) ∧
        m'.pairs.Perm (m.pairs.map (Prod.map φ ψ)) :=
    ⟨_, _, _, _, _, _, _, _, _, rfl, rfl, rfl, rfl, rfl, rfl, rfl, rfl, rfl, rfl, rfl, rfl, rfl,
      by decide, by decide, by decide⟩
  have hs := Tree.built_fan _ _ _ hsrc
  have hd := Tree.built_fan _ _ _ hdst
  have hs' := ((Tree.built_fan _ _ _ hsrc₁).removeChild hsrc₂).addChild hsrc'
  have hd' := (Tree.built_fan _ _ _ hdst₁).insertChild hdst'
  have hren := (Tree.renumbering_iff hs.wellFormed hs'.wellFormed hiso).2 hφ
  have hren' := (Tree.renumbering_iff hd.wellFormed hd'.wellFormed hiso').2 hψ
  refine ⟨src, dst, src₁, src₂, src', dst₁, dst', m, m', φ, ψ, hsrc, hdst, hsrc₁, hsrc₂, hsrc',
    hdst₁, hdst', hiso, hiso', hren, hren', by decide, hm, hm', ?_⟩
  exact ((editScript_renumbered hs hs' hd hd' hiso hiso').2.2 φ ψ hren hren').2.2 m m'
    (filled_pairing crossing hlive hm) (filled_pairing crossingElsewhere hlive' hm')
    fun p => hperm.mem_iff

end Mapping

end TreeScript
