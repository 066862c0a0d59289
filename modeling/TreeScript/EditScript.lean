/-
**From a mapping to an edit script.**

The script takes the source tree to the destination tree, keeping the source nodes that have
counterparts and no others.  If the roots are not counterparts of each other nothing can be kept,
and the script replaces the whole tree.

Main definitions:

* `TreeScript.Mapping.rootsPaired` — whether the roots are counterparts;
* `TreeScript.Mapping.draft` — all changes, for a mapping that pairs the roots;
* `TreeScript.Mapping.editScript` — **the script**.
-/

import TreeScript.Draft

set_option relaxedAutoImplicit false
set_option autoImplicit false

namespace TreeScript.Mapping

/-- Whether the roots are counterparts of each other. -/
def rootsPaired (m : Mapping) : Bool := m.source? m.dst.root == some m.src.root

/-- All changes that take the source tree to the destination tree, when the roots are counterparts
of each other. -/
def draft (m : Mapping) (quiet : Bool) : Except Fault Draft := do
  let d ← Draft.start m
  let w := d.copy.root
  let d ← d.rename m quiet w m.dst.root
  let d ← (d.mark m.dst.root).arrange m quiet w m.dst.root
  let d ← m.dst.iter.foldlM (Draft.visit m quiet) d
  d.prune m quiet

/-- The script that takes out the whole source tree and brings in the whole destination tree. -/
def replacement (m : Mapping) : List Action :=
  [.treeDelete m.src.root, .treeInsert m.dst.root none 0]

/-- **The script that takes the source tree to the destination tree.**  A quiet script leaves out
what happens to nodes that stay: it tells only of nodes that come or go. -/
def editScript (m : Mapping) (quiet : Bool) : Except Fault (List Action) :=
  if m.rootsPaired then return (← m.draft quiet).script else return m.replacement

end TreeScript.Mapping
