import Mathlib

/-!
# Binary hash trees built level by level

A list is folded to one element by joining neighbours, level after level; an odd
last element is promoted to the next level as it is.  Done with trees in place of
digests, the same climb yields the tree the root is the digest of, whatever its
shape; its leaves in order are the list.

So the root determines the list as soon as it determines the tree: leaf and node
digests are injective on what was hashed, and no leaf has the digest of a node.
Lists of different lengths need no argument of their own.
-/

namespace MerkleTree

variable {α β γ η : Type}

/-! ## Climbing -/

def pairUp (join : β → β → β) : List β → List β
  | left :: right :: rest => join left right :: pairUp join rest
  | level => level

def climb (join : β → β → β) : Nat → List β → List β
  | 0, level => level
  | fuel + 1, level =>
      if level.length > 1 then climb join fuel (pairUp join level) else level

/-- The neighbours one level joins. -/
def pairs : List β → List (β × β)
  | left :: right :: rest => (left, right) :: pairs rest
  | _ => []

/-- What a climb joins, level after level. -/
def joined (join : β → β → β) : Nat → List β → List (β × β)
  | 0, _ => []
  | fuel + 1, level =>
      if level.length > 1 then pairs level ++ joined join fuel (pairUp join level) else []

theorem length_pairUp (join : β → β → β) (level : List β) :
    (pairUp join level).length = (level.length + 1) / 2 := by
  fun_induction pairUp join level with
  | case1 left right rest ih =>
      simp only [List.length_cons, ih]
      omega
  | case2 level h =>
      match level with
      | [] => simp
      | [_] => simp
      | left :: right :: rest => exact absurd rfl (h left right rest)

/-- As many steps as there are elements are enough. -/
theorem length_climb {join : β → β → β} {fuel : Nat} {level : List β} (hne : level ≠ [])
    (hfuel : level.length ≤ fuel + 1) : (climb join fuel level).length = 1 := by
  have hpos := List.length_pos_of_ne_nil hne
  induction fuel generalizing level with
  | zero =>
      simp only [climb]
      omega
  | succ fuel ih =>
      simp only [climb]
      split
      · have hnext := length_pairUp join level
        have hnepos : (pairUp join level).length ≠ 0 := by omega
        exact ih (fun h => hnepos (by rw [h]; rfl)) (by omega) (by omega)
      · omega

theorem map_pairUp {join : β → β → β} {join' : γ → γ → γ} {f : β → γ}
    (hf : ∀ a b, f (join a b) = join' (f a) (f b)) (level : List β) :
    (pairUp join level).map f = pairUp join' (level.map f) := by
  fun_induction pairUp join level with
  | case1 left right rest ih =>
      simp only [List.map_cons, pairUp, hf, ih]
  | case2 level h =>
      match level with
      | [] => rfl
      | [_] => rfl
      | left :: right :: rest => exact absurd rfl (h left right rest)

theorem map_climb {join : β → β → β} {join' : γ → γ → γ} {f : β → γ}
    (hf : ∀ a b, f (join a b) = join' (f a) (f b)) (fuel : Nat) (level : List β) :
    (climb join fuel level).map f = climb join' fuel (level.map f) := by
  induction fuel generalizing level with
  | zero => rfl
  | succ fuel ih =>
      simp only [climb, List.length_map]
      split
      · rw [ih, map_pairUp hf]
      · rfl

/-! ## Trees -/

inductive Tree (α : Type)
  | leaf (a : α)
  | node (left right : Tree α)

namespace Tree

def fringe : Tree α → List α
  | .leaf a => [a]
  | .node left right => left.fringe ++ right.fringe

variable (leafHash : α → η) (nodeHash : η → η → η)

def digest : Tree α → η
  | .leaf a => leafHash a
  | .node left right => nodeHash left.digest right.digest

/-- The digests joined at the nodes. -/
def joins : Tree α → List (η × η)
  | .leaf _ => []
  | .node left right =>
      (left.digest leafHash nodeHash, right.digest leafHash nodeHash) :: (left.joins ++ right.joins)

variable {leafHash nodeHash}

/-- The digest determines the tree, where what it hashes has no collisions. -/
theorem digest_inj {leaves : Set α} {nodes : Set (η × η)} (hleaf : Set.InjOn leafHash leaves)
    (hnode : Set.InjOn (fun p : η × η => nodeHash p.1 p.2) nodes)
    (hapart : ∀ a ∈ leaves, ∀ p ∈ nodes, leafHash a ≠ nodeHash p.1 p.2) {t t' : Tree α}
    (ht : ∀ a ∈ t.fringe, a ∈ leaves) (ht' : ∀ a ∈ t'.fringe, a ∈ leaves)
    (hn : ∀ p ∈ t.joins leafHash nodeHash, p ∈ nodes)
    (hn' : ∀ p ∈ t'.joins leafHash nodeHash, p ∈ nodes)
    (h : t.digest leafHash nodeHash = t'.digest leafHash nodeHash) : t = t' := by
  induction t generalizing t' with
  | leaf a =>
      cases t' with
      | leaf a' =>
          rw [hleaf (ht a (List.mem_singleton_self a)) (ht' a' (List.mem_singleton_self a')) h]
      | node left' right' =>
          exact absurd h (hapart a (ht a (List.mem_singleton_self a)) _
            (hn' _ List.mem_cons_self))
  | node left right ihl ihr =>
      cases t' with
      | leaf a' =>
          exact absurd h.symm (hapart a' (ht' a' (List.mem_singleton_self a')) _
            (hn _ List.mem_cons_self))
      | node left' right' =>
          obtain ⟨hl, hr⟩ := Prod.mk.inj
            (hnode (hn _ List.mem_cons_self) (hn' _ List.mem_cons_self) h)
          simp only [fringe, List.mem_append] at ht ht'
          simp only [joins, List.mem_cons, List.mem_append] at hn hn'
          rw [ihl (fun a ha => ht a (Or.inl ha)) (fun a ha => ht' a (Or.inl ha))
              (fun p hp => hn p (Or.inr (Or.inl hp))) (fun p hp => hn' p (Or.inr (Or.inl hp))) hl,
            ihr (fun a ha => ht a (Or.inr ha)) (fun a ha => ht' a (Or.inr ha))
              (fun p hp => hn p (Or.inr (Or.inr hp))) (fun p hp => hn' p (Or.inr (Or.inr hp))) hr]

end Tree

/-! ## Climbing with trees -/

section

variable {leafHash : α → η} {nodeHash : η → η → η}

theorem fringe_pairUp (level : List (Tree α)) :
    (pairUp .node level).flatMap Tree.fringe = level.flatMap Tree.fringe := by
  fun_induction pairUp Tree.node level with
  | case1 left right rest ih => simp [Tree.fringe, ih]
  | case2 => rfl

theorem fringe_climb (fuel : Nat) (level : List (Tree α)) :
    (climb .node fuel level).flatMap Tree.fringe = level.flatMap Tree.fringe := by
  induction fuel generalizing level with
  | zero => rfl
  | succ fuel ih =>
      simp only [climb]
      split
      · rw [ih, fringe_pairUp]
      · rfl

theorem mem_joins_pairUp {level : List (Tree α)} {t : Tree α} (ht : t ∈ pairUp .node level)
    {p : η × η} (hp : p ∈ t.joins leafHash nodeHash) :
    (∃ t ∈ level, p ∈ t.joins leafHash nodeHash)
      ∨ p ∈ pairs (level.map (Tree.digest leafHash nodeHash)) := by
  fun_induction pairUp Tree.node level with
  | case1 left right rest ih =>
      rcases List.mem_cons.mp ht with rfl | ht
      · simp only [Tree.joins, List.mem_cons, List.mem_append] at hp
        rcases hp with rfl | hp | hp
        · exact Or.inr List.mem_cons_self
        · exact Or.inl ⟨left, List.mem_cons_self, hp⟩
        · exact Or.inl ⟨right, List.mem_cons_of_mem _ List.mem_cons_self, hp⟩
      · rcases ih ht with ⟨t', ht', hp'⟩ | hp'
        · exact Or.inl ⟨t', List.mem_cons_of_mem _ (List.mem_cons_of_mem _ ht'), hp'⟩
        · exact Or.inr (List.mem_cons_of_mem _ hp')
  | case2 level => exact Or.inl ⟨t, ht, hp⟩

theorem mem_joins_climb {fuel : Nat} {level : List (Tree α)} {t : Tree α}
    (ht : t ∈ climb .node fuel level) {p : η × η} (hp : p ∈ t.joins leafHash nodeHash) :
    (∃ t ∈ level, p ∈ t.joins leafHash nodeHash)
      ∨ p ∈ joined nodeHash fuel (level.map (Tree.digest leafHash nodeHash)) := by
  induction fuel generalizing level with
  | zero => exact Or.inl ⟨t, ht, hp⟩
  | succ fuel ih =>
      simp only [climb] at ht
      simp only [joined, List.length_map]
      split at ht
      · rename_i hlen
        rw [if_pos hlen]
        have hmap := @map_pairUp _ _ Tree.node nodeHash (Tree.digest leafHash nodeHash)
          (fun _ _ => rfl) level
        rcases ih ht with ⟨t', ht', hp'⟩ | hp'
        · rcases mem_joins_pairUp ht' hp' with hold | hpair
          · exact Or.inl hold
          · exact Or.inr (List.mem_append_left _ hpair)
        · rw [hmap] at hp'
          exact Or.inr (List.mem_append_right _ hp')
      · exact Or.inl ⟨t, ht, hp⟩

variable (leafHash nodeHash) in
/-- The digest a climb ends with is that of a tree with the list as its leaves,
and the tree joins nothing but what the climb joins. -/
theorem exists_tree {fuel : Nat} {l : List α} (hne : l ≠ []) (hfuel : l.length ≤ fuel + 1) :
    ∃ t : Tree α, climb nodeHash fuel (l.map leafHash) = [t.digest leafHash nodeHash]
      ∧ t.fringe = l
      ∧ ∀ p ∈ t.joins leafHash nodeHash, p ∈ joined nodeHash fuel (l.map leafHash) := by
  have hsingle : (climb Tree.node fuel (l.map Tree.leaf)).length = 1 :=
    length_climb (by simpa using hne) (by simpa using hfuel)
  obtain ⟨t, ht⟩ := List.length_eq_one_iff.mp hsingle
  have hdigest := @map_climb _ _ Tree.node nodeHash (Tree.digest leafHash nodeHash)
    (fun _ _ => rfl) fuel (l.map Tree.leaf)
  have hfringe := fringe_climb fuel (l.map Tree.leaf)
  have hleaves : (l.map Tree.leaf).map (Tree.digest leafHash nodeHash) = l.map leafHash := by
    rw [List.map_map]
    rfl
  rw [ht, hleaves] at hdigest
  rw [ht, List.flatMap_singleton] at hfringe
  refine ⟨t, hdigest.symm, ?_, fun p hp => ?_⟩
  · rw [hfringe, List.flatMap_map]
    exact List.flatMap_singleton' l
  · have hmem : t ∈ climb Tree.node fuel (l.map Tree.leaf) := ht ▸ List.mem_singleton_self t
    rcases mem_joins_climb hmem hp with ⟨t', ht', hp'⟩ | hp'
    · obtain ⟨a, -, rfl⟩ := List.mem_map.mp ht'
      cases hp'
    · rwa [hleaves] at hp'

/-- Equal roots come from equal lists, of whatever lengths. -/
theorem climb_inj {l l' : List α} {fuel fuel' : Nat} (leaves : Set α) (nodes : Set (η × η))
    (hleaf : Set.InjOn leafHash leaves)
    (hnode : Set.InjOn (fun p : η × η => nodeHash p.1 p.2) nodes)
    (hapart : ∀ a ∈ leaves, ∀ p ∈ nodes, leafHash a ≠ nodeHash p.1 p.2)
    (hne : l ≠ []) (hne' : l' ≠ []) (hfuel : l.length ≤ fuel + 1) (hfuel' : l'.length ≤ fuel' + 1)
    (hl : ∀ a ∈ l, a ∈ leaves) (hl' : ∀ a ∈ l', a ∈ leaves)
    (hn : ∀ p ∈ joined nodeHash fuel (l.map leafHash), p ∈ nodes)
    (hn' : ∀ p ∈ joined nodeHash fuel' (l'.map leafHash), p ∈ nodes)
    (h : climb nodeHash fuel (l.map leafHash) = climb nodeHash fuel' (l'.map leafHash)) :
    l = l' := by
  obtain ⟨t, hroot, hfringe, hjoins⟩ := exists_tree leafHash nodeHash hne hfuel
  obtain ⟨t', hroot', hfringe', hjoins'⟩ := exists_tree leafHash nodeHash hne' hfuel'
  rw [hroot, hroot'] at h
  have htree : t = t' := Tree.digest_inj hleaf hnode hapart (by rw [hfringe]; exact hl)
    (by rw [hfringe']; exact hl') (fun p hp => hn p (hjoins p hp))
    (fun p hp => hn' p (hjoins' p hp)) (List.singleton_inj.mp h)
  rw [← hfringe, htree, hfringe']

end

/-! ## Paths -/

section

variable {leafHash : α → η} {nodeHash : η → η → η}

/-- A step joins its sibling on the right or on the left. -/
def stepPair (current : β) (step : β × Bool) : β × β :=
  if step.2 then (current, step.1) else (step.1, current)

/-- Where a path of siblings leads. -/
def follow (join : β → β → β) : β → List (β × Bool) → β
  | current, [] => current
  | current, step :: path =>
      follow join (join (stepPair current step).1 (stepPair current step).2) path

/-- What is joined on the way. -/
def joinedAlong (join : β → β → β) : β → List (β × Bool) → List (β × β)
  | _, [] => []
  | current, step :: path =>
      stepPair current step
        :: joinedAlong join (join (stepPair current step).1 (stepPair current step).2) path

/-- The siblings an element meets on its climb.  Where it is promoted there is none. -/
def siblings (join : β → β → β) : Nat → List β → Nat → List (β × Bool)
  | 0, _, _ => []
  | fuel + 1, level, index =>
      if level.length > 1 then
        let siblingIndex := if index % 2 = 0 then index + 1 else index - 1
        (level[siblingIndex]?.map fun sibling => (sibling, decide (index % 2 = 0))).toList
          ++ siblings join fuel (pairUp join level) (index / 2)
      else []

theorem follow_append (join : β → β → β) (current : β) (path path' : List (β × Bool)) :
    follow join current (path ++ path') = follow join (follow join current path) path' := by
  induction path generalizing current with
  | nil => rfl
  | cons step path ih => exact ih _

theorem joinedAlong_append (join : β → β → β) (current : β) (path path' : List (β × Bool)) :
    joinedAlong join current (path ++ path')
      = joinedAlong join current path ++ joinedAlong join (follow join current path) path' := by
  induction path generalizing current with
  | nil => rfl
  | cons step path ih => exact congrArg _ (ih _)

/-- The element over a position is joined from the two at and beside it, or promoted. -/
theorem getElem?_pairUp (join : β → β → β) (level : List β) (index : Nat) :
    (pairUp join level)[index]? = match level[2 * index]?, level[2 * index + 1]? with
      | some left, some right => some (join left right)
      | left, _ => left := by
  induction index generalizing level with
  | zero =>
      match level with
      | [] => rfl
      | [_] => rfl
      | left :: right :: rest => rfl
  | succ index ih =>
      match level with
      | [] => rfl
      | [_] => rfl
      | left :: right :: rest =>
          rw [pairUp, List.getElem?_cons_succ, ih]
          rfl

/-- One step of a climb: the element with its sibling, if it has one. -/
theorem follow_step {join : β → β → β} {level : List β} {index : Nat} {a : β}
    (ha : level[index]? = some a) :
    (pairUp join level)[index / 2]? = some (follow join a
      (level[if index % 2 = 0 then index + 1 else index - 1]?.map
        fun sibling => (sibling, decide (index % 2 = 0))).toList) := by
  rw [getElem?_pairUp]
  by_cases heven : index % 2 = 0
  · have hindex : 2 * (index / 2) = index := by omega
    rw [hindex, ha, if_pos heven, decide_eq_true heven]
    rcases level[index + 1]? with _ | right
    · rfl
    · rfl
  · have hindex : 2 * (index / 2) + 1 = index := by omega
    have hleft : 2 * (index / 2) = index - 1 := by omega
    have hlen := (List.getElem?_eq_some_iff.mp ha).1
    obtain ⟨left, hsome⟩ : ∃ left, level[index - 1]? = some left :=
      ⟨_, List.getElem?_eq_getElem (by omega)⟩
    rw [hindex, hleft, ha, hsome, if_neg heven, decide_eq_false heven, hsome]
    rfl

/-- Following its siblings an element gets to the root. -/
theorem follow_siblings {join : β → β → β} {fuel : Nat} {level : List β} {index : Nat} {a root : β}
    (hroot : climb join fuel level = [root]) (ha : level[index]? = some a) :
    follow join a (siblings join fuel level index) = root := by
  have hsingle : ∀ {level : List β} {index : Nat} {a : β}, level = [root] →
      level[index]? = some a → a = root := by
    rintro level index a rfl ha
    exact List.mem_singleton.mp (List.mem_of_getElem? ha)
  induction fuel generalizing level index a with
  | zero => exact hsingle hroot ha
  | succ fuel ih =>
      rw [climb] at hroot
      rw [siblings]
      by_cases hlen : level.length > 1
      · rw [if_pos hlen] at hroot ⊢
        rw [follow_append]
        exact ih hroot (follow_step ha)
      · rw [if_neg hlen] at hroot ⊢
        exact hsingle hroot ha

/-- A path to the digest of a tree starts at one of its leaves, where what is
hashed for both has no collisions. -/
theorem mem_fringe_of_follow {leaves : Set α} {nodes : Set (η × η)}
    (hleaf : Set.InjOn leafHash leaves)
    (hnode : Set.InjOn (fun p : η × η => nodeHash p.1 p.2) nodes)
    (hapart : ∀ a ∈ leaves, ∀ p ∈ nodes, leafHash a ≠ nodeHash p.1 p.2) {t : Tree α} {a : α}
    {path : List (η × Bool)} (ht : ∀ a ∈ t.fringe, a ∈ leaves) (ha : a ∈ leaves)
    (hn : ∀ p ∈ t.joins leafHash nodeHash, p ∈ nodes)
    (hpath : ∀ p ∈ joinedAlong nodeHash (leafHash a) path, p ∈ nodes)
    (h : follow nodeHash (leafHash a) path = t.digest leafHash nodeHash) : a ∈ t.fringe := by
  -- from the root down: the last step of the path against the root of the tree
  induction path using List.reverseRecOn generalizing t with
  | nil =>
      cases t with
      | leaf a' =>
          rw [hleaf ha (ht a' (List.mem_singleton_self a')) h]
          exact List.mem_singleton_self a'
      | node left right => exact absurd h (hapart a ha _ (hn _ List.mem_cons_self))
  | append_singleton path step ih =>
      rw [joinedAlong_append] at hpath
      rw [follow_append] at h
      have hlast := hpath _ (List.mem_append_right _ List.mem_cons_self)
      cases t with
      | leaf a' => exact absurd h.symm (hapart a' (ht a' (List.mem_singleton_self a')) _ hlast)
      | node left right =>
          have hpair := hnode hlast (hn _ List.mem_cons_self) h
          simp only [Tree.fringe, List.mem_append] at ht ⊢
          simp only [Tree.joins, List.mem_cons, List.mem_append] at hn
          have hrest : ∀ p ∈ joinedAlong nodeHash (leafHash a) path, p ∈ nodes :=
            fun p hp => hpath p (List.mem_append_left _ hp)
          unfold stepPair at hpair
          split_ifs at hpair
          · exact Or.inl (ih (fun a ha => ht a (Or.inl ha)) (fun p hp => hn p (Or.inr (Or.inl hp)))
              hrest (Prod.mk.inj hpair).1)
          · exact Or.inr (ih (fun a ha => ht a (Or.inr ha)) (fun p hp => hn p (Or.inr (Or.inr hp)))
              hrest (Prod.mk.inj hpair).2)

end

end MerkleTree
