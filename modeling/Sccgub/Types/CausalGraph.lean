import Mathlib
import Sccgub.Types.Block

/-!
# Causal graph

The graph a block adds, and the depth-first search that looks for a cycle in
it.  The search keeps an explicit stack of vertices, each with the index of its
next neighbour, and colours vertices white, gray (on the stack) and black
(done); meeting a gray neighbour is a cycle.
-/

namespace Sccgub

/-! ## Vertex order -/

def CausalVertex.order : CausalVertex → CausalVertex → Ordering :=
  compareLex (compareOn fun v => v.kind.index) (compareOn fun v => v.id)

instance : Ord CausalVertex := ⟨CausalVertex.order⟩

instance : Std.TransOrd CausalVertex := inferInstanceAs (Std.TransCmp (compareLex _ _))

theorem CausalVertexKind.index_injective : Function.Injective CausalVertexKind.index := by
  intro a b h
  cases a <;> cases b <;> first | rfl | cases h

instance : Std.LawfulEqOrd CausalVertex where
  eq_of_compare := by
    rintro ⟨k, i⟩ ⟨k', i'⟩ h
    obtain ⟨hk, hi⟩ := compareLex_eq_eq.mp h
    have hkind := CausalVertexKind.index_injective (Std.LawfulEqOrd.eq_of_compare (α := Nat) hk)
    have hid := Std.LawfulEqOrd.eq_of_compare (α := Hash) hi
    simp only at hkind hid
    rw [hkind, hid]

/-! ## Graph and search -/

structure CausalGraph where
  vertices : Std.ExtTreeSet CausalVertex := ∅
  edges : List CausalEdge := []

inductive Color where
  | white
  | gray
  | black
  deriving DecidableEq, Inhabited

abbrev Colors := Std.ExtTreeMap CausalVertex Color

namespace CausalGraph

def addVertex (self : CausalGraph) (v : CausalVertex) : CausalGraph :=
  { self with vertices := self.vertices.insert v }

def addEdge (self : CausalGraph) (e : CausalEdge) : CausalGraph :=
  { self with edges := self.edges ++ [e] }

def neighbors (self : CausalGraph) (v : CausalVertex) : List CausalVertex :=
  self.edges.filterMap fun e => if e.endpoints.1 = v then some e.endpoints.2 else none

/-- Declared vertices and the end points of edges. -/
def allVertices (self : CausalGraph) : Std.ExtTreeSet CausalVertex :=
  self.edges.foldl (fun set e => (set.insert e.endpoints.1).insert e.endpoints.2) self.vertices

/-- `none` is a cycle.  A step moves on to the next neighbour or closes a
vertex, so edges and vertices bound the number of steps. -/
def search (self : CausalGraph) : Nat → List (CausalVertex × Nat) → Colors → Option Colors
  | 0, _, color => some color
  | _, [], color => some color
  | fuel + 1, (v, next) :: stack, color =>
      match (self.neighbors v)[next]? with
      | some neighbor =>
          match color[neighbor]? with
          | some .gray => none
          | some .white =>
              self.search fuel ((neighbor, 0) :: (v, next + 1) :: stack)
                (color.insert neighbor .gray)
          | _ => self.search fuel ((v, next + 1) :: stack) color
      | none => self.search fuel stack (color.insert v .black)

def isAcyclic (self : CausalGraph) : Bool :=
  let vertices := self.allVertices.toList
  let fuel := vertices.length + self.edges.length + 1
  let white : Colors := Std.ExtTreeMap.ofList (vertices.map fun v => (v, Color.white))
  (vertices.foldlM (fun color start =>
    if color[start]? = some Color.white then
      self.search fuel [(start, 0)] (color.insert start .gray)
    else some color) white).isSome

end CausalGraph

end Sccgub
