import Flycatcher.Library.TextStreams
import Mathlib.Data.List.Basic

namespace Flycatcher.FileNames

open Library.TextStreams

def inprogressMark : Str := ['_', 'i', 'n', 'p', 'r', 'o', 'g', 'r', 'e', 's', 's']

def doneMark : Str := ['_', 'd', 'o', 'n', 'e']

def inprogress (path : Str) : Str := path ++ inprogressMark

def done (path : Str) : Str := path ++ doneMark

/-- The arguments are C strings: no NUL is part of them. -/
def strEndsWith (str suffix : Str) : Bool :=
  if suffix.length > str.length then false
  else (str.drop (str.length - suffix.length)).take suffix.length = suffix.take suffix.length

def shouldAddFile (f : Str) (startingUp : Bool) : Bool :=
  (startingUp || !strEndsWith f inprogressMark) && !strEndsWith f doneMark

def entryPath (dir name : Str) : Str :=
  if dir.getLast? = some '/' then dir ++ name else dir ++ '/' :: name

def eventPath (dir name : Str) : Str := dir ++ ['/'] ++ name

theorem entryPath_ne_nil (dir name : Str) : entryPath dir name ≠ [] := by
  rw [entryPath]
  split_ifs with h
  · obtain ⟨d, rfl⟩ := List.getLast?_eq_some_iff.mp h
    simp
  · simp

theorem eventPath_ne_nil (dir name : Str) : eventPath dir name ≠ [] := by
  simp [eventPath]

theorem strEndsWith_iff (str suffix : Str) : strEndsWith str suffix = true ↔ suffix <:+ str := by
  rw [strEndsWith]
  split_ifs with h
  · simp only [false_iff]
    intro hs
    exact absurd hs.length_le (by omega)
  · have hl : (str.drop (str.length - suffix.length)).length = suffix.length := by
      rw [List.length_drop]
      omega
    rw [List.take_of_length_le (Nat.le_of_eq hl), List.take_length, decide_eq_true_iff, eq_comm]
    exact List.suffix_iff_eq_drop.symm

theorem shouldAddFile_startingUp (f : Str) : shouldAddFile f true = true ↔ ¬ doneMark <:+ f := by
  rw [shouldAddFile, ← strEndsWith_iff]
  simp

theorem shouldAddFile_running (f : Str) :
    shouldAddFile f false = true ↔ ¬ inprogressMark <:+ f ∧ ¬ doneMark <:+ f := by
  rw [shouldAddFile, ← strEndsWith_iff, ← strEndsWith_iff]
  simp

theorem shouldAddFile_mono {f : Str} (h : shouldAddFile f false = true) :
    shouldAddFile f true = true := by
  rw [shouldAddFile_startingUp]
  exact ((shouldAddFile_running f).mp h).2

theorem inprogress_injective {p q : Str} (h : inprogress p = inprogress q) : p = q :=
  List.append_cancel_right h

theorem done_injective {p q : Str} (h : done p = done q) : p = q := List.append_cancel_right h

theorem doneMark_suffix_done (p : Str) : doneMark <:+ done p := List.suffix_append p doneMark

theorem inprogressMark_suffix_inprogress (p : Str) : inprogressMark <:+ inprogress p :=
  List.suffix_append p inprogressMark

theorem not_doneMark_suffix_inprogress (p : Str) : ¬ doneMark <:+ inprogress p := by
  rintro ⟨q, hq⟩
  have h := congrArg List.getLast? hq
  simp [inprogress, inprogressMark, doneMark] at h

theorem inprogress_ne_done (p q : Str) : inprogress p ≠ done q := by
  intro h
  apply not_doneMark_suffix_inprogress p
  rw [h]
  exact doneMark_suffix_done q

theorem inprogress_ne_self (p : Str) : inprogress p ≠ p := by
  intro h
  exact absurd (List.append_right_eq_self.mp h) (by decide)

theorem done_ne_self (p : Str) : done p ≠ p := by
  intro h
  exact absurd (List.append_right_eq_self.mp h) (by decide)

theorem suffix_after_slash {mark : Str} (hmark : '/' ∉ mark) (dir name : Str) :
    mark <:+ dir ++ '/' :: name ↔ mark <:+ name := by
  have hname : '/' :: name <:+ dir ++ '/' :: name := List.suffix_append dir _
  have htail : name <:+ '/' :: name := List.suffix_cons '/' name
  constructor
  · intro h
    rcases Nat.lt_or_ge name.length mark.length with hl | hl
    · have hs : '/' :: name <:+ mark := List.suffix_of_suffix_length_le hname h hl
      exact absurd (hs.subset (by simp)) hmark
    · exact List.suffix_of_suffix_length_le h (htail.trans hname) hl
  · intro h
    exact h.trans (htail.trans hname)

theorem shouldAddFile_after_slash (dir name : Str) (startingUp : Bool) :
    shouldAddFile (dir ++ '/' :: name) startingUp = shouldAddFile name startingUp := by
  have hends {mark : Str} (hmark : '/' ∉ mark) :
      strEndsWith (dir ++ '/' :: name) mark = strEndsWith name mark := by
    rw [Bool.eq_iff_iff, strEndsWith_iff, strEndsWith_iff, suffix_after_slash hmark]
  rw [shouldAddFile, shouldAddFile, hends (by decide), hends (by decide)]

/-- However the watched directory is written, a path passes when its name does. -/
theorem shouldAddFile_eventPath (dir name : Str) (startingUp : Bool) :
    shouldAddFile (eventPath dir name) startingUp = shouldAddFile name startingUp := by
  rw [eventPath, List.append_assoc]
  exact shouldAddFile_after_slash dir name startingUp

theorem shouldAddFile_entryPath (dir name : Str) (startingUp : Bool) :
    shouldAddFile (entryPath dir name) startingUp = shouldAddFile name startingUp := by
  rw [entryPath]
  split_ifs with h
  · obtain ⟨d, rfl⟩ := List.getLast?_eq_some_iff.mp h
    rw [List.append_assoc]
    exact shouldAddFile_after_slash d name startingUp
  · exact shouldAddFile_after_slash dir name startingUp

structure FileName where
  text : Str
  noSlash : '/' ∉ text
deriving DecidableEq

def Leads (dir path : Str) (name : FileName) : Prop :=
  path = entryPath dir name.text ∨ path = eventPath dir name.text

instance (dir path : Str) (name : FileName) : Decidable (Leads dir path name) :=
  inferInstanceAs (Decidable (_ ∨ _))

theorem Leads.behind_slash {dir path : Str} {name : FileName} (h : Leads dir path name) :
    ∃ d, path = d ++ '/' :: name.text := by
  rcases h with rfl | rfl
  · rw [entryPath]
    split_ifs with hd
    · obtain ⟨d, rfl⟩ := List.getLast?_eq_some_iff.mp hd
      exact ⟨d, List.append_assoc d ['/'] name.text⟩
    · exact ⟨dir, rfl⟩
  · exact ⟨dir, List.append_assoc dir ['/'] name.text⟩

theorem Leads.unique {dir path : Str} {name name' : FileName} (h : Leads dir path name)
    (h' : Leads dir path name') : name = name' := by
  obtain ⟨d, hd⟩ := h.behind_slash
  obtain ⟨d', hd'⟩ := h'.behind_slash
  obtain ⟨n, hn⟩ := name
  obtain ⟨n', hn'⟩ := name'
  have hs : n <:+ d' ++ '/' :: n' := by
    rw [← hd', hd]
    exact (List.suffix_cons '/' n).trans (List.suffix_append d _)
  have hs' : n' <:+ d ++ '/' :: n := by
    rw [← hd, hd']
    exact (List.suffix_cons '/' n').trans (List.suffix_append d' _)
  have he : n = n' :=
    ((suffix_after_slash hn d' n').mp hs).eq_of_length_le
      ((suffix_after_slash hn' d n).mp hs').length_le
  subst he
  rfl

end Flycatcher.FileNames
