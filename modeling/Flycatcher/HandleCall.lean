import Flycatcher.CsvIterator
import Flycatcher.FileNames
import Flycatcher.Library.Statements
import Flycatcher.Logging
import Mathlib.Data.List.Basic

namespace Flycatcher.HandleCall

open Library.TextStreams Library.Statements CsvRow FileNames Logging

/-- What is thrown, as far as Util::what can tell. A const char * that is thrown
points to a text. -/
inductive Thrown
  | exception (what : Str)
  | string (text : Str)
  | chars (text : Str)
  | other
deriving DecidableEq

/-- Util::what, for a null pointer or one to what has been thrown. -/
def what : Option Thrown → Except Thrown Str
  | none => .error (.exception "std::bad_exception".toList)
  | some (.exception text) => .ok text
  | some (.string text) => .ok text
  | some (.chars text) => .ok text
  | some .other => .ok "who knows".toList

inductive Outcome
  | published
  | ignored
  | threw (e : Thrown)
deriving DecidableEq

structure Attempt where
  line : Str
  row : CSVRow
  outcome : Outcome

structure File where
  attempts : List Attempt
  failure : Option Thrown

inductive Event
  | fetchAdd (n : Int)
  | log (level : Level) (message : Str)
  | rename (source target : Str)
  | attempt (a : Attempt)
  | ignore (a : Attempt)
  | excCount (n : Int16)
  | notifyAll

structure Locals where
  oldCount : Nat
  excCount : Int16
  events : List Event

abbrev Code := Statement Locals Thrown

def Locals.emit (s : Locals) (event : Event) : Locals := { s with events := s.events ++ [event] }

def Locals.ignore (s : Locals) (a : Attempt) : Locals :=
  { s with oldCount := s.oldCount + 1, events := s.events ++ [.ignore a] }

def Locals.setExcCount (s : Locals) (n : Int16) : Locals :=
  { s with excCount := n, events := s.events ++ [.excCount n] }

def emit (event : Event) : Code := assign fun s => s.emit event

def log (level : Level) (message : Str) : Code := emit (.log level message)

def rowText (row : CSVRow) : Str := [','].intercalate (row.columns.map row.value)

/-- str() leaves the stream at the beginning of the text it is given, where the
row is then written. -/
def errorInRow (row : CSVRow) : Str :=
  rowText row ++ "Error in row: ".toList.drop (rowText row).length

def processing (d : Str) : Str := "Processing '".toList ++ d ++ ['\'']

def tooManyExceptions (d : Str) : Str := "To many exceptions in file '".toList ++ d ++ ['\'']

def unableToLoad (d : Str) : Str := "Unable to load file '".toList ++ d ++ ['\'']

def doneWith (d : Str) (oldCount : Nat) (days : Int) : Str :=
  "Done with '".toList ++ d ++ ['\''] ++
    if oldCount > 0 then
      ". Ignored ".toList ++ (toString oldCount).toList ++
        " events because they were older than ".toList ++ (toString days).toList ++
        " days".toList
    else []

def processRow (a : Attempt) : Code :=
  seq (emit (.attempt a))
    (match a.outcome with
      | .published => skip
      | .ignored => assign fun s => s.ignore a
      | .threw e => throwing e)

def endRows (file : File) : Code :=
  match file.failure with
  | none => skip
  | some e => throwing e

structure Input where
  d : Str
  renamed : Bool
  file : File
  days : Int

def start : Locals := ⟨0, 0, []⟩

section Handle

/- operator<< of a row inserts the text and is left past its end, where a return is
missing. What the program does from there on can be any code. -/
variable (pastEnd : Code) (d : Str)

/-- The handler of the inner try statement, which begins with `ss << row`. -/
def catchRow (a : Attempt) (e : Thrown) : Code :=
  seq pastEnd
    (seq (select fun s => if s.excCount = 0 then log .error (errorInRow a.row) else skip)
      (seq
        (match what (some e) with
          | .ok text => log .error text
          | .error e => throwing e)
        (seq (assign fun s => s.setExcCount (s.excCount + 1))
          (select fun s =>
            if s.excCount > 13 then seq (log .error (tooManyExceptions d)) breakLoop else skip))))

def handleRow (a : Attempt) : Code := tryCatch (processRow a) (catchRow pastEnd d a)

def handleRows (file : File) : Code :=
  forEach (handleRow pastEnd d) (endRows file) file.attempts

def handleFile (file : File) : Code :=
  seq (assign fun s => s.setExcCount 0)
    (seq (tryCatch (handleRows pastEnd d file) fun _ => log .error (unableToLoad d))
      (emit (.rename (inprogress d) (done d))))

def handleCode (input : Input) : Code :=
  seq (emit (.fetchAdd 1))
    (seq (log .info (processing input.d))
      (seq (emit (.rename input.d (inprogress input.d)))
        (seq (if input.renamed then handleFile pastEnd input.d input.file else skip)
          (seq (select fun s => log .info (doneWith input.d s.oldCount input.days))
            (seq (emit (.fetchAdd (-1))) (emit .notifyAll))))))

def handle (input : Input) : Completion Thrown × Locals := handleCode pastEnd input start

end Handle

def Event.attempted : Event → Option Attempt
  | .attempt a => some a
  | _ => none

def Event.ignored : Event → Option Attempt
  | .ignore a => some a
  | _ => none

def Event.renamed : Event → Option (Str × Str)
  | .rename source target => some (source, target)
  | _ => none

def Event.counted : Event → Option Int16
  | .excCount n => some n
  | _ => none

def Event.updated : Event → Option Int
  | .fetchAdd n => some n
  | _ => none

def attempts (events : List Event) : List Attempt := events.filterMap Event.attempted

def ignoredRows (events : List Event) : List Attempt := events.filterMap Event.ignored

def renames (events : List Event) : List (Str × Str) := events.filterMap Event.renamed

def excCounts (events : List Event) : List Int16 := events.filterMap Event.counted

def updates (events : List Event) : List Int := events.filterMap Event.updated

theorem attempts_append (xs ys : List Event) :
    attempts (xs ++ ys) = attempts xs ++ attempts ys := List.filterMap_append

theorem ignoredRows_append (xs ys : List Event) :
    ignoredRows (xs ++ ys) = ignoredRows xs ++ ignoredRows ys := List.filterMap_append

theorem renames_append (xs ys : List Event) : renames (xs ++ ys) = renames xs ++ renames ys :=
  List.filterMap_append

theorem excCounts_append (xs ys : List Event) :
    excCounts (xs ++ ys) = excCounts xs ++ excCounts ys := List.filterMap_append

theorem updates_append (xs ys : List Event) : updates (xs ++ ys) = updates xs ++ updates ys :=
  List.filterMap_append

def Attempt.isIgnored (a : Attempt) : Bool := a.outcome = .ignored

def Attempt.throws (a : Attempt) : Bool :=
  match a.outcome with
  | .threw _ => true
  | _ => false

def throws (rows : List Attempt) : Nat := rows.countP Attempt.throws

theorem throws_append (xs ys : List Attempt) : throws (xs ++ ys) = throws xs + throws ys :=
  List.countP_append

def UpToThrow (n : Nat) (rows attempted : List Attempt) : Prop :=
  (throws rows < n ∧ attempted = rows) ∨
    ∃ before last after, rows = before ++ last :: after ∧ attempted = before ++ [last] ∧
      last.throws = true ∧ throws before + 1 = n

structure Progress (before : List Event) (seen : List Attempt) (k : Nat) (s : Locals) : Prop where
  excCount : s.excCount = .ofNat k
  oldCount : s.oldCount = (seen.filter Attempt.isIgnored).length
  events : ∃ events, s.events = before ++ events ∧ attempts events = seen ∧
    ignoredRows events = seen.filter Attempt.isIgnored ∧ renames events = [] ∧
    updates events = [] ∧ ∀ n ∈ excCounts events, 0 ≤ n ∧ n ≤ 14

variable {before : List Event} {seen : List Attempt} {k : Nat} {s : Locals} {d : Str}

theorem Progress.start (h : s.excCount = 0) (ho : s.oldCount = 0) : Progress s.events [] 0 s :=
  ⟨h, ho, [], by simp, rfl, rfl, rfl, rfl, by simp [excCounts]⟩

theorem Progress.extend (h : Progress before seen k s) {t : Locals} {seen' : List Attempt} {k' : Nat}
    (more : List Event) (hevents : t.events = s.events ++ more) (hexc : t.excCount = .ofNat k')
    (hold : t.oldCount = s.oldCount + (ignoredRows more).length)
    (hseen : seen' = seen ++ attempts more)
    (hignored : ignoredRows more = (attempts more).filter Attempt.isIgnored)
    (hrenames : renames more = []) (hupdates : updates more = [])
    (hcounts : ∀ n ∈ excCounts more, 0 ≤ n ∧ n ≤ 14) : Progress before seen' k' t := by
  obtain ⟨events, hs, ha, hi, hr, hu, hc⟩ := h.events
  refine ⟨hexc, ?_, events ++ more, ?_, ?_, ?_, ?_, ?_, ?_⟩
  · rw [hold, h.oldCount, hignored, hseen, List.filter_append, List.length_append]
  · rw [hevents, hs, List.append_assoc]
  · rw [hseen, attempts_append, ha]
  · rw [hseen, List.filter_append, ignoredRows_append, hi, hignored]
  · rw [renames_append, hr, hrenames, List.append_nil]
  · rw [updates_append, hu, hupdates, List.append_nil]
  · intro n hn
    rw [excCounts_append, List.mem_append] at hn
    exact hn.elim (hc n) (hcounts n)

theorem Progress.log (h : Progress before seen k s) (level : Level) (message : Str) :
    Progress before seen k (s.emit (.log level message)) :=
  h.extend [.log level message] rfl h.excCount rfl (List.append_nil seen).symm rfl rfl rfl
    (by simp [excCounts, Event.counted])

theorem Progress.attempt (h : Progress before seen k s) {a : Attempt} (ha : a.isIgnored = false) :
    Progress before (seen ++ [a]) k (s.emit (.attempt a)) :=
  h.extend [.attempt a] rfl h.excCount rfl rfl (by simp [ignoredRows, attempts, Event.ignored,
    Event.attempted, ha]) rfl rfl (by simp [excCounts, Event.counted])

theorem Progress.ignore (h : Progress before seen k s) {a : Attempt} (ha : a.isIgnored = true) :
    Progress before (seen ++ [a]) k ((s.emit (.attempt a)).ignore a) :=
  h.extend [.attempt a, .ignore a] (List.append_assoc ..) h.excCount rfl rfl
    (by simp [ignoredRows, attempts, List.filterMap_cons, Event.ignored, Event.attempted, ha]) rfl rfl
    (by simp [excCounts, Event.counted])

theorem excCount_next : ∀ k ≤ 13, Int16.ofNat k + 1 = Int16.ofNat (k + 1) ∧
    (Int16.ofNat (k + 1) > 13 ↔ k = 13) ∧ 0 ≤ Int16.ofNat (k + 1) ∧ Int16.ofNat (k + 1) ≤ 14 := by
  decide

theorem Progress.count (h : Progress before seen k s) (hk : k ≤ 13) :
    Progress before seen (k + 1) (s.setExcCount (s.excCount + 1)) := by
  obtain ⟨hadd, -, hlow, hhigh⟩ := excCount_next k hk
  rw [h.excCount, hadd]
  refine h.extend [.excCount (.ofNat (k + 1))] rfl rfl rfl (List.append_nil seen).symm rfl rfl rfl ?_
  intro n hn
  obtain rfl := List.mem_singleton.mp hn
  exact ⟨hlow, hhigh⟩

def Processed (before : List Event) (seen : List Attempt) (k : Nat) (a : Attempt) :
    Completion Thrown → Locals → Prop
  | .normally, t => Progress before (seen ++ [a]) k t ∧ a.throws = false
  | .byThrow _, t => Progress before (seen ++ [a]) k t ∧ a.throws = true
  | _, _ => False

theorem triple_log {Q : Completion Thrown → Locals → Prop} {P : Locals → Prop} {level : Level}
    {message : Str} (h : ∀ s, P s → Q .normally (s.emit (.log level message))) :
    Triple P (HandleCall.log level message) Q := triple_assign h

theorem processRow_triple (a : Attempt) :
    Triple (Progress before seen k) (processRow a) (Processed before seen k a) := by
  rw [processRow]
  cases ho : a.outcome with
  | published =>
      have hi : a.isIgnored = false := by simp [Attempt.isIgnored, ho]
      have ht : a.throws = false := by simp [Attempt.throws, ho]
      apply Triple.seq (R := Progress before (seen ++ [a]) k)
      · exact triple_assign fun s hs => hs.attempt hi
      · exact triple_skip fun s hs => ⟨hs, ht⟩
  | ignored =>
      have hi : a.isIgnored = true := by simp [Attempt.isIgnored, ho]
      have ht : a.throws = false := by simp [Attempt.throws, ho]
      apply Triple.seq (R := fun t => ∃ s, Progress before seen k s ∧ t = s.emit (.attempt a))
      · exact triple_assign fun s hs => ⟨s, hs, rfl⟩
      · apply triple_assign
        rintro t ⟨s, hs, rfl⟩
        exact ⟨hs.ignore hi, ht⟩
  | threw e =>
      have hi : a.isIgnored = false := by simp [Attempt.isIgnored, ho]
      have ht : a.throws = true := by simp [Attempt.throws, ho]
      apply Triple.seq (R := Progress before (seen ++ [a]) k)
      · exact triple_assign fun s hs => hs.attempt hi
      · exact triple_throwing fun s hs => ⟨hs, ht⟩

theorem what_thrown (e : Thrown) : ∃ text, what (some e) = .ok text := by
  cases e <;> exact ⟨_, rfl⟩

def Handled (before : List Event) (seen : List Attempt) (k : Nat) :
    Completion Thrown → Locals → Prop
  | .normally, t => Progress before seen (k + 1) t ∧ k + 1 ≤ 13
  | .byBreak, t => Progress before seen (k + 1) t ∧ k = 13
  | _, _ => False

theorem catchRow_triple (a : Attempt) (e : Thrown) (hk : k ≤ 13) :
    Triple (Progress before seen k) (catchRow skip d a e) (Handled before seen k) := by
  obtain ⟨text, hwhat⟩ := what_thrown e
  rw [catchRow, hwhat]
  apply Triple.seq (R := Progress before seen k)
  · exact triple_skip fun s hs => hs
  apply Triple.seq (R := Progress before seen k)
  · apply triple_select
    intro s hs
    split_ifs
    · exact triple_log fun t ht => ht ▸ hs.log _ _
    · exact triple_skip fun t ht => ht ▸ hs
  apply Triple.seq (R := Progress before seen k)
  · exact triple_log fun s hs => hs.log _ _
  apply Triple.seq (R := Progress before seen (k + 1))
  · exact triple_assign fun s hs => hs.count hk
  apply triple_select
  intro s hs
  have hlimit : s.excCount > 13 ↔ k = 13 := by
    rw [hs.excCount]
    exact (excCount_next k hk).2.1
  split_ifs with hgt
  · apply Triple.seq (R := Progress before seen (k + 1))
    · exact triple_log fun t ht => ht ▸ hs.log _ _
    · exact triple_breakLoop fun t ht => ⟨ht, hlimit.mp hgt⟩
  · have hne : k ≠ 13 := fun h => hgt (hlimit.mpr h)
    exact triple_skip fun t ht => ht ▸ ⟨hs, by omega⟩

theorem throws_concat (seen : List Attempt) (a : Attempt) :
    throws (seen ++ [a]) = throws seen + if a.throws then 1 else 0 := by
  rw [throws_append, throws, throws, List.countP_singleton]

def Attempting (before : List Event) (seen : List Attempt) (s : Locals) : Prop :=
  Progress before seen (throws seen) s ∧ throws seen ≤ 13

def Attempted (before : List Event) (rows : List Attempt) (s : Locals) : Prop :=
  ∃ attempted, UpToThrow 14 rows attempted ∧ Progress before attempted (throws attempted) s

theorem handleRow_triple (a : Attempt) (rest : List Attempt) :
    Triple (Attempting before seen) (handleRow skip d a) (Loops (Attempting before (seen ++ [a]))
      (Normally (Attempted before (seen ++ a :: rest)))) := by
  have hconcat := throws_concat seen a
  constructor
  rintro s ⟨hs, hk⟩
  refine (Triple.tryCatch (R := fun _ t => Progress before (seen ++ [a]) (throws seen) t ∧
    a.throws = true) ?_ ?_).left s hs
  · apply (processRow_triple a).weaken
    intro completion t ht
    cases completion with
    | normally =>
        obtain ⟨ht, ha⟩ := ht
        rw [ha, if_neg Bool.false_ne_true, Nat.add_zero] at hconcat
        exact ⟨hconcat ▸ ht, by omega⟩
    | byThrow e => exact ht
    | byBreak | ended => exact ht.elim
  · intro e
    constructor
    rintro t ⟨ht, ha⟩
    rw [ha, if_pos rfl] at hconcat
    refine ((catchRow_triple a e hk).weaken ?_).left t ht
    intro completion u hu
    cases completion with
    | normally => exact ⟨hconcat ▸ hu.1, hconcat ▸ hu.2⟩
    | byBreak =>
        refine ⟨rfl, seen ++ [a], .inr ⟨seen, a, rest, rfl, rfl, ha, by rw [hu.2]⟩, ?_⟩
        exact hconcat ▸ hu.1
    | byThrow e | ended => exact hu.elim

theorem handleRows_triple (file : File) :
    Triple (Attempting before []) (handleRows skip d file)
      (fun completion t => completion ≠ .byBreak ∧ completion ≠ .ended ∧
        Attempted before file.attempts t) := by
  apply triple_forEach (I := Attempting before) []
  · intro seen a rest he
    apply (handleRow_triple a rest).weaken
    intro completion t ht
    rw [List.nil_append] at he
    cases completion with
    | normally => exact ht
    | byBreak => exact ⟨nofun, nofun, he ▸ ht.2⟩
    | byThrow e | ended => exact absurd ht.1 nofun
  · have hall : ∀ t, Attempting before file.attempts t → Attempted before file.attempts t :=
      fun t ht => ⟨file.attempts, .inl ⟨Nat.lt_succ_of_le ht.2, rfl⟩, ht.1⟩
    rw [List.nil_append, endRows]
    cases file.failure with
    | none => exact triple_skip fun t ht => ⟨nofun, nofun, hall t ht⟩
    | some e => exact triple_throwing fun t ht => ⟨nofun, nofun, hall t ht⟩

theorem tryRows_triple (file : File) :
    Triple (Attempting before []) (tryCatch (handleRows skip d file) fun _ => log .error (unableToLoad d))
      (Normally (Attempted before file.attempts)) := by
  apply Triple.tryCatch (R := fun _ => Attempted before file.attempts)
  · apply (handleRows_triple file).weaken
    rintro completion t ⟨hbreak, hended, ht⟩
    cases completion with
    | normally => exact ⟨rfl, ht⟩
    | byBreak => exact absurd rfl hbreak
    | byThrow e => exact ht
    | ended => exact absurd rfl hended
  · intro e
    apply triple_log
    rintro t ⟨attempted, hupTo, ht⟩
    exact ⟨rfl, attempted, hupTo, ht.log _ _⟩

def entered (d : Str) : Locals :=
  ((start.emit (.fetchAdd 1)).emit (.log .info (processing d))).emit (.rename d (inprogress d))

def left (d : Str) (days : Int) (s : Locals) : Locals :=
  ((s.emit (.log .info (doneWith d s.oldCount days))).emit (.fetchAdd (-1))).emit .notifyAll

theorem left_events (d : Str) (days : Int) (t : Locals) :
    (left d days (t.emit (.rename (inprogress d) (done d)))).events =
      t.events ++ .rename (inprogress d) (done d) ::
        [.log .info (doneWith d t.oldCount days), .fetchAdd (-1), .notifyAll] := by
  simp [left, Locals.emit]

theorem handle_missing (pastEnd : Code) (d : Str) (file : File) (days : Int) :
    handle pastEnd ⟨d, false, file, days⟩ = (.normally, left d days (entered d)) := rfl

theorem handle_renamed (d : Str) (file : File) (days : Int) :
    ∃ t, Attempted ((entered d).setExcCount 0).events file.attempts t ∧
      handle skip ⟨d, true, file, days⟩ =
        (.normally, left d days (t.emit (.rename (inprogress d) (done d)))) := by
  have hstart : Attempting ((entered d).setExcCount 0).events [] ((entered d).setExcCount 0) :=
    ⟨Progress.start rfl rfl, Nat.zero_le 13⟩
  obtain ⟨hnormally, hattempted⟩ := (tryRows_triple file).left _ hstart
  refine ⟨_, hattempted, ?_⟩
  generalize htry : tryCatch (handleRows skip d file) (fun _ => log .error (unableToLoad d))
    ((entered d).setExcCount 0) = outcome at hnormally
  obtain ⟨completion, t⟩ := outcome
  obtain rfl : completion = .normally := hnormally
  have hfile : handleFile skip d file (entered d) =
      (.normally, t.emit (.rename (inprogress d) (done d))) := by
    rw [handleFile, seq, assign]
    simp only [seq, htry, emit, assign]
  simp only [handle, handleCode, seq, emit, assign, log, if_true]
  rw [← entered, hfile]
  rfl

theorem attempts_left {attempted : List Attempt} {t : Locals} (days : Int)
    (h : Progress ((entered d).setExcCount 0).events attempted k t) :
    attempts (left d days (t.emit (.rename (inprogress d) (done d)))).events = attempted := by
  obtain ⟨events, hs, ha, -⟩ := h.events
  rw [left_events, hs, attempts_append, attempts_append, ha]
  exact List.append_nil attempted

theorem renames_left {attempted : List Attempt} {t : Locals} (days : Int)
    (h : Progress ((entered d).setExcCount 0).events attempted k t) :
    renames (left d days (t.emit (.rename (inprogress d) (done d)))).events =
      [(d, inprogress d), (inprogress d, done d)] := by
  obtain ⟨events, hs, -, -, hr, -⟩ := h.events
  rw [left_events, hs, renames_append, renames_append, hr]
  rfl

/-- What a call has to come to: whatever the rows come to, and wherever the reading ends,
the loop is left after the fourteenth exception and not before, rows are ignored on
their own account, and the file is renamed once behind the last row. -/
def InBudget (d : Str) (file : File) (call : Completion Thrown × Locals) : Prop :=
  ∃ attempted t, call = (.normally, t) ∧
    attempts t.events = attempted ∧ UpToThrow 14 file.attempts attempted ∧
    ignoredRows t.events = attempted.filter Attempt.isIgnored ∧
    t.oldCount = (attempted.filter Attempt.isIgnored).length ∧
    t.excCount = .ofNat (throws attempted) ∧ (∀ n ∈ excCounts t.events, 0 ≤ n ∧ n ≤ 14) ∧
    ∃ before after, t.events = before ++ .rename (inprogress d) (done d) :: after ∧
      attempts before = attempted ∧ attempts after = [] ∧
      renames before = [(d, inprogress d)] ∧ renames after = []

/-- As if operator<< returned. -/
theorem handle_inBudget (d : Str) (file : File) (days : Int) :
    InBudget d file (handle skip ⟨d, true, file, days⟩) := by
  obtain ⟨t, ⟨attempted, hupTo, ht⟩, hhandle⟩ := handle_renamed d file days
  obtain ⟨events, hs, ha, hi, hr, -, hc⟩ := ht.events
  have hleft := left_events d days t
  rw [hs] at hleft
  refine ⟨attempted, _, hhandle, attempts_left days ht, hupTo, ?_, ht.oldCount, ht.excCount, ?_, _,
    _, hleft, ?_, rfl, ?_, rfl⟩
  · rw [hleft, ignoredRows_append, ignoredRows_append, hi]
    exact List.append_nil _
  · rw [hleft, excCounts_append, excCounts_append]
    intro n hn
    rcases List.mem_append.mp hn with hn | hn
    · rcases List.mem_append.mp hn with hn | hn
      · obtain rfl := List.mem_singleton.mp hn
        decide
      · exact hc n hn
    · cases hn
  · rw [attempts_append, ha]
    rfl
  · rw [renames_append, hr]
    rfl

theorem handleRow_calm (pastEnd : Code) (d : Str) {a : Attempt} (h : a.throws = false) :
    handleRow pastEnd d a = handleRow skip d a := by
  funext s
  obtain ⟨line, row, outcome⟩ := a
  cases outcome with
  | published | ignored => rfl
  | threw e => cases h

theorem handle_calm (pastEnd : Code) (d : Str) {file : File}
    (h : ∀ a ∈ file.attempts, a.throws = false) (days : Int) :
    handle pastEnd ⟨d, true, file, days⟩ = handle skip ⟨d, true, file, days⟩ := by
  have hrows : handleRows pastEnd d file = handleRows skip d file :=
    forEach_congr fun a ha => handleRow_calm pastEnd d (h a ha)
  rw [handle, handle, handleCode, handleCode, handleFile, handleFile, hrows]

theorem handleRow_ended (d : Str) {a : Attempt} (h : a.throws = true) (s : Locals) :
    (handleRow endProgram d a s).1 = .ended := by
  obtain ⟨line, row, outcome⟩ := a
  cases outcome with
  | published | ignored => cases h
  | threw e => rfl

/-- Where the end of operator<< is that of the program, the first row that throws is. -/
theorem handleRows_ended (d : Str) {file : File} (h : ∃ a ∈ file.attempts, a.throws = true)
    (s : Locals) : (handleRows endProgram d file s).1 = .ended := by
  obtain ⟨rows, failure⟩ := file
  rw [handleRows]
  induction rows generalizing s with
  | nil =>
      obtain ⟨a, ha, -⟩ := h
      cases ha
  | cons a rows ih =>
      rw [forEach, turn]
      cases hthrows : a.throws with
      | true =>
          have hended := handleRow_ended d hthrows s
          generalize handleRow endProgram d a s = outcome at hended
          obtain ⟨completion, t⟩ := outcome
          obtain rfl : completion = .ended := hended
          rfl
      | false =>
          have hrest : ∃ a ∈ rows, a.throws = true := by
            obtain ⟨b, hb, hb'⟩ := h
            rcases List.mem_cons.mp hb with rfl | hb
            · exact absurd (hthrows.symm.trans hb') Bool.false_ne_true
            · exact ⟨b, hb, hb'⟩
          rw [handleRow_calm endProgram d hthrows]
          obtain ⟨line, row, outcome⟩ := a
          cases outcome with
          | published | ignored => exact ih _ hrest
          | threw e => cases hthrows

theorem handle_ended (d : Str) {file : File} (h : ∃ a ∈ file.attempts, a.throws = true)
    (days : Int) : (handle endProgram ⟨d, true, file, days⟩).1 = .ended := by
  have hended := handleRows_ended d h ((entered d).setExcCount 0)
  generalize hrows : handleRows endProgram d file ((entered d).setExcCount 0) = outcome at hended
  obtain ⟨completion, t⟩ := outcome
  obtain rfl : completion = .ended := hended
  have htry : tryCatch (handleRows endProgram d file) (fun _ => log .error (unableToLoad d))
      ((entered d).setExcCount 0) = (.ended, t) := by
    rw [Library.Statements.tryCatch, hrows]
  have hfile : handleFile endProgram d file (entered d) = (.ended, t) := by
    rw [handleFile, seq, assign]
    simp only [seq, htry]
  simp only [handle, handleCode, seq, emit, assign, log, if_true]
  rw [← entered, hfile]

/-- Whatever operator<< does past its end, the call comes to what it has to come to:
this is so for the files of which no row throws, and for no others. -/
theorem handle_error_budget_iff (d : Str) (file : File) (days : Int) :
    (∀ pastEnd, InBudget d file (handle pastEnd ⟨d, true, file, days⟩)) ↔
      ∀ a ∈ file.attempts, a.throws = false := by
  constructor
  · intro h a ha
    by_contra hthrows
    obtain ⟨attempted, t, hnormally, -⟩ := h endProgram
    have hended := handle_ended d ⟨a, ha, by simpa using hthrows⟩ days
    rw [hnormally] at hended
    cases hended
  · intro h pastEnd
    rw [handle_calm pastEnd d h days]
    exact handle_inBudget d file days

def malformed : File :=
  ⟨[⟨['x'], (CSVRow.empty.setColumns [['a']]).assign ['a'] ['x'],
    .threw (.exception "stoi".toList)⟩], none⟩

theorem malformed_not_inBudget :
    ¬∀ pastEnd, InBudget ['f'] malformed (handle pastEnd ⟨['f'], true, malformed, 0⟩) := by
  intro h
  obtain ⟨attempted, t, hnormally, -⟩ := h endProgram
  cases congrArg Prod.fst hnormally

end Flycatcher.HandleCall
