import Mathlib

/-!
# Files written under another name first

To save a text under a name, it is written to a temporary file, and that file is
renamed.  Several saves run side by side, one step at a time, and a crash may
come between any two steps: it drops the saves that are under way, and leaves
anything at all in a temporary file that was about to be written.

A reader sees the files whose names are not temporary.  `Saved` says what these
hold; a save changes it when it renames, and a crash does not change it.
-/

namespace AtomicFiles

/-- The temporary name of a name, and which names are temporary. -/
structure Naming (K : Type) where
  temporary : K → K
  isTemporary : K → Bool
  isTemporary_temporary : ∀ name, isTemporary (temporary name) = true
  injective : Function.Injective temporary

theorem Naming.ne_temporary {K : Type} (naming : Naming K) {name : K} (other : K)
    (hname : naming.isTemporary name = false) : naming.temporary other ≠ name := by
  rintro rfl
  rw [naming.isTemporary_temporary] at hname
  cases hname

/-- A text on its way to a name. -/
structure Save (K T : Type) where
  name : K
  text : T
  written : Bool := false

section

variable {K T : Type} [Ord K] [Std.TransOrd K]

structure Disk (K T : Type) [Ord K] [Std.TransOrd K] where
  files : Std.ExtTreeMap K T := ∅
  saves : List (Save K T) := []

namespace Disk

variable (naming : Naming K) (self : Disk K T)

def start (name : K) (text : T) : Disk K T :=
  { self with saves := self.saves ++ [⟨name, text, false⟩] }

/-- One step of the save at a position: the temporary file is written, then it
gets its name, if it is there. -/
def advance (i : Nat) : Disk K T :=
  match self.saves[i]? with
  | none => self
  | some save =>
      if save.written then
        { files := match self.files[naming.temporary save.name]? with
            | some text => (self.files.erase (naming.temporary save.name)).insert save.name text
            | none => self.files
          saves := self.saves.eraseIdx i }
      else
        { files := self.files.insert (naming.temporary save.name) save.text
          saves := self.saves.set i { save with written := true } }

variable {self} in
theorem advance_unwritten {i : Nat} {save : Save K T} (hi : self.saves[i]? = some save)
    (hwritten : save.written = false) :
    self.advance naming i =
      { files := self.files.insert (naming.temporary save.name) save.text
        saves := self.saves.set i { save with written := true } } := by
  unfold advance
  rw [hi]
  dsimp only
  rw [if_neg (by rw [hwritten]; decide)]

variable {self} in
theorem advance_written {i : Nat} {save : Save K T} (hi : self.saves[i]? = some save)
    (hwritten : save.written = true) :
    self.advance naming i =
      { files := match self.files[naming.temporary save.name]? with
          | some text => (self.files.erase (naming.temporary save.name)).insert save.name text
          | none => self.files
        saves := self.saves.eraseIdx i } := by
  unfold advance
  rw [hi]
  dsimp only
  rw [if_pos hwritten]

def names : List K := self.saves.map (·.name)

theorem length_names : self.names.length = self.saves.length := List.length_map _

variable {self} in
theorem names_unwritten {i : Nat} {save : Save K T} (hi : self.saves[i]? = some save)
    (hwritten : save.written = false) : (self.advance naming i).names = self.names := by
  rw [advance_unwritten naming hi hwritten]
  refine List.ext_getElem? fun j => ?_
  rw [names, names, List.getElem?_map, List.getElem?_map]
  by_cases hij : i = j
  · subst hij
    obtain ⟨hlt, rfl⟩ := List.getElem?_eq_some_iff.mp hi
    simp [hlt]
  · rw [List.getElem?_set_ne hij]

variable {self} in
theorem names_written {i : Nat} {save : Save K T} (hi : self.saves[i]? = some save)
    (hwritten : save.written = true) :
    (self.advance naming i).names = self.names.eraseIdx i := by
  rw [advance_written naming hi hwritten, names, names, List.eraseIdx_map]

/-- A save that was about to write its text may have left something else. -/
def tear (torn : K → Option T) (files : Std.ExtTreeMap K T) (save : Save K T) :
    Std.ExtTreeMap K T :=
  if save.written then files
  else
    match torn save.name with
    | some text => files.insert (naming.temporary save.name) text
    | none => files

/-- The directory as it is opened after a crash. -/
def reopened (torn : K → Option T) : Disk K T where
  files := (self.saves.foldl (tear naming torn) self.files).filter fun name _ =>
    !naming.isTemporary name

end Disk

/-! ## What is saved -/

/-- The names that are not temporary hold what `content` says, and the saves under
way are for different names, none of them temporary. -/
structure Saved (naming : Naming K) (content : K → Option T) (disk : Disk K T) : Prop where
  files : ∀ name, naming.isTemporary name = false → disk.files[name]? = content name
  named : ∀ save ∈ disk.saves, naming.isTemporary save.name = false
  nodup : disk.names.Nodup
  staged : ∀ save ∈ disk.saves, save.written = true →
    disk.files[naming.temporary save.name]? = some save.text

namespace Saved

variable {naming : Naming K} {content : K → Option T} {disk : Disk K T}

theorem start (h : Saved naming content disk) {name : K} (text : T)
    (hname : naming.isTemporary name = false) (hfresh : name ∉ disk.names) :
    Saved naming content (disk.start name text) where
  files := h.files
  named := by
    intro save hsave
    rcases List.mem_append.mp hsave with hold | hnew
    · exact h.named save hold
    · rw [List.mem_singleton.mp hnew]
      exact hname
  nodup := by
    show ((disk.saves ++ [_]).map _).Nodup
    rw [List.map_append]
    exact List.Nodup.append h.nodup (List.nodup_singleton _)
      (List.disjoint_singleton.mpr hfresh)
  staged := by
    intro save hsave hwritten
    rcases List.mem_append.mp hsave with hold | hnew
    · exact h.staged save hold hwritten
    · rw [List.mem_singleton.mp hnew] at hwritten
      cases hwritten

variable [Std.LawfulEqOrd K]

omit [Std.LawfulEqOrd K] in
/-- Saves of one name are one save. -/
theorem eq_of_name (h : Saved naming content disk) {save other : Save K T}
    (hsave : save ∈ disk.saves) (hother : other ∈ disk.saves) (hname : other.name = save.name) :
    other = save :=
  List.inj_on_of_nodup_map h.nodup hother hsave hname

theorem write (h : Saved naming content disk) {i : Nat} {save : Save K T}
    (hi : disk.saves[i]? = some save) (hwritten : save.written = false) :
    Saved naming content (disk.advance naming i) := by
  have hmem := List.mem_of_getElem? hi
  have hnames := Disk.names_unwritten naming hi hwritten
  rw [Disk.advance_unwritten naming hi hwritten] at hnames ⊢
  have hother : ∀ other ∈ disk.saves.set i { save with written := true },
      other = { save with written := true } ∨ other ∈ disk.saves := by
    intro other hother
    exact (List.mem_or_eq_of_mem_set hother).symm
  refine ⟨fun name hname => ?_, fun other hset => ?_, hnames ▸ h.nodup, fun other hset hdone => ?_⟩
  · rw [Std.ExtTreeMap.getElem?_insert, if_neg, h.files name hname]
    exact fun hc => naming.ne_temporary save.name hname (Std.LawfulEqCmp.eq_of_compare hc)
  · rcases hother other hset with rfl | hold
    · exact h.named save hmem
    · exact h.named other hold
  · dsimp only
    rw [Std.ExtTreeMap.getElem?_insert]
    rcases hother other hset with rfl | hold
    · exact if_pos Std.ReflCmp.compare_self
    · rw [if_neg, h.staged other hold hdone]
      intro hc
      have hname := naming.injective (Std.LawfulEqCmp.eq_of_compare hc)
      rw [h.eq_of_name hmem hold hname.symm, hwritten] at hdone
      cases hdone

variable [DecidableEq K]

theorem rename (h : Saved naming content disk) {i : Nat} {save : Save K T}
    (hi : disk.saves[i]? = some save) (hwritten : save.written = true) :
    Saved naming (Function.update content save.name (some save.text)) (disk.advance naming i) := by
  have hmem := List.mem_of_getElem? hi
  have hsub : (disk.saves.eraseIdx i).Sublist disk.saves := List.eraseIdx_sublist ..
  have hnames := Disk.names_written naming hi hwritten
  have hgone : ∀ other ∈ disk.saves.eraseIdx i, other.name ≠ save.name := by
    intro other hother hname
    obtain rfl := h.eq_of_name hmem (hsub.subset hother) hname
    obtain ⟨j, hne, hj⟩ := List.mem_eraseIdx_iff_getElem?.mp hother
    obtain ⟨hlt, hjeq⟩ := List.getElem?_eq_some_iff.mp hj
    obtain ⟨hlt', hieq⟩ := List.getElem?_eq_some_iff.mp hi
    have hnodup := (List.nodup_iff_injective_get.mp h.nodup.of_map)
    have hsame := @hnodup ⟨j, hlt⟩ ⟨i, hlt'⟩ (hjeq.trans hieq.symm)
    exact hne (congrArg Fin.val hsame)
  rw [Disk.advance_written naming hi hwritten, h.staged save hmem hwritten] at hnames ⊢
  refine ⟨fun name hname => ?_, fun other hother => h.named other (hsub.subset hother),
    hnames ▸ h.nodup.sublist (List.eraseIdx_sublist ..), fun other hother hdone => ?_⟩
  · rw [Std.ExtTreeMap.getElem?_insert, Function.update_apply]
    by_cases heq : name = save.name
    · subst heq
      rw [if_pos Std.ReflCmp.compare_self, if_pos rfl]
    · rw [if_neg fun hc => heq (Std.LawfulEqCmp.eq_of_compare hc).symm, if_neg heq,
        Std.ExtTreeMap.getElem?_erase, if_neg, h.files name hname]
      exact fun hc => naming.ne_temporary save.name hname (Std.LawfulEqCmp.eq_of_compare hc)
  · have hne := hgone other hother
    dsimp only
    rw [Std.ExtTreeMap.getElem?_insert, if_neg, Std.ExtTreeMap.getElem?_erase, if_neg,
      h.staged other (hsub.subset hother) hdone]
    · exact fun hc => hne (naming.injective (Std.LawfulEqCmp.eq_of_compare hc)).symm
    · exact fun hc => naming.ne_temporary other.name (h.named save hmem)
        (Std.LawfulEqCmp.eq_of_compare hc).symm

omit [DecidableEq K] in
theorem getElem?_tear (torn : K → Option T) (saves : List (Save K T))
    (files : Std.ExtTreeMap K T) {name : K} (hname : naming.isTemporary name = false) :
    (saves.foldl (Disk.tear naming torn) files)[name]? = files[name]? := by
  induction saves generalizing files with
  | nil => rfl
  | cons save saves ih =>
      rw [List.foldl_cons, ih]
      unfold Disk.tear
      split
      · rfl
      · split
        · rw [Std.ExtTreeMap.getElem?_insert, if_neg]
          exact fun hc => naming.ne_temporary save.name hname (Std.LawfulEqCmp.eq_of_compare hc)
        · rfl

omit [DecidableEq K] in
/-- A crash costs what had not been renamed, and nothing else. -/
theorem reopened (h : Saved naming content disk) (torn : K → Option T) :
    Saved naming content (disk.reopened naming torn) where
  files := by
    intro name hname
    show (Std.ExtTreeMap.filter _ _)[name]? = _
    rw [Std.ExtTreeMap.getElem?_filter', getElem?_tear torn _ _ hname, h.files name hname, hname]
    cases content name <;> rfl
  named := by
    intro save hsave
    cases hsave
  nodup := List.nodup_nil
  staged := by
    intro save hsave
    cases hsave

end Saved

end

end AtomicFiles
