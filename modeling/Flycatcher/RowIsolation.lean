import Flycatcher.CsvRoundTrip
import Flycatcher.Transformers
import Mathlib.Data.List.Basic

namespace Flycatcher.RowIsolation

open Library.TextStreams CsvRow CsvIterator CsvRoundTrip Transformers

/-- The row loop of handle as far as it concerns the row object: the
transformers run, publish sees the row, and publish and the error message only
look columns up in it. Which columns they look up on which row is left open. -/
def seeRow (chain : List Transformer) (lookups : Nat → List Str) (seen : List CSVRow)
    (row : CSVRow) : Turn (List CSVRow) :=
  let row := operate chain row
  ⟨seen ++ [row], row.touchAll (lookups seen.length), false⟩

def seenRows (chain : List Transformer) (lookups : Nat → List Str) (header : Str)
    (lines : List Str) : Option (List CSVRow) :=
  forRows (seeRow chain lookups) (unlines (header :: lines)) []

def Fits (header line : Str) : Prop :=
  (lineFields (stripLine line)).length ≤ (headerColumns header).length

def shielded (c : Str) : List Step → Bool
  | [] => false
  | step :: steps => step.overwrites c || (!step.reads.contains c && shielded c steps)

def staleColumns (header : Str) (steps : List Step) : List Str :=
  headerColumns header ++ (steps.filter fun step => step.overwrites step.column).map Step.column

def Settled (header : Str) (steps : List Step) (line : Str) : Prop :=
  ∀ c ∈ staleColumns header steps,
    c ∈ (headerColumns header).take (lineFields (stripLine line)).length ∨ shielded c steps = true

instance (header : Str) (steps : List Step) (line : Str) : Decidable (Settled header steps line) :=
  inferInstanceAs (Decidable (∀ _ ∈ _, _))

instance (header line : Str) : Decidable (Fits header line) := inferInstanceAs (Decidable (_ ≤ _))

theorem effect_keeps (step : Step) (row : CSVRow) :
    (step.effect row).line = row.line ∧ (step.effect row).columns = row.columns := by
  have hguard (column : Str) (f : CSVRow → CSVRow) (row : CSVRow)
      (hf : ∀ row, (f row).line = row.line ∧ (f row).columns = row.columns) :
      (onNonEmpty column f row).line = row.line ∧
        (onNonEmpty column f row).columns = row.columns := by
    rw [onNonEmpty]
    split_ifs
    · exact ⟨rfl, rfl⟩
    · exact hf _
  cases step with
  | base column => exact hguard _ _ row fun _ => ⟨rfl, rfl⟩
  | decorate own column =>
      cases own with
      | unuuid => exact hguard _ _ row fun _ => ⟨rfl, rfl⟩
      | map lookup =>
          refine hguard _ _ row fun row => ?_
          cases lookup[row.value column]? <;> exact ⟨rfl, rfl⟩
      | append fromColumn | prepend fromColumn =>
          exact hguard _ _ row fun row => hguard _ _ row fun _ => ⟨rfl, rfl⟩
      | set value => exact ⟨rfl, rfl⟩

theorem runSteps_keeps (steps : List Step) (row : CSVRow) :
    (runSteps steps row).line = row.line ∧ (runSteps steps row).columns = row.columns := by
  induction steps generalizing row with
  | nil => exact ⟨rfl, rfl⟩
  | cons step steps ih =>
      obtain ⟨hl, hc⟩ := effect_keeps step row
      obtain ⟨hl', hc'⟩ := ih (step.effect row)
      exact ⟨hl'.trans hl, hc'.trans hc⟩

theorem seeRow_keepsLine (chain : List Transformer) (lookups : Nat → List Str) :
    KeepsLine (seeRow chain lookups) := by
  intro seen row
  obtain ⟨hl, hc⟩ := runSteps_keeps (chain.flatMap Transformer.steps) row
  rw [← operate_eq_runSteps] at hl hc
  obtain ⟨hl', hc'⟩ := touchAll_keeps (operate chain row) (lookups seen.length)
  exact ⟨hl'.trans hl, hc'.trans hc⟩

/-- Two rows that differ at most in shielded columns are equal in every column
after the steps. -/
theorem runSteps_agree {steps : List Step} {row row' : CSVRow}
    (h : ∀ c, shielded c steps = true ∨ row.value c = row'.value c) (c : Str) :
    (runSteps steps row).value c = (runSteps steps row').value c := by
  induction steps generalizing row row' with
  | nil => exact (h c).resolve_left (by simp [shielded])
  | cons step steps ih =>
      have hreads : ∀ d ∈ step.reads, row.value d = row'.value d := by
        intro d hd
        apply (h d).resolve_left
        have hset : step.overwrites d = false := by
          rw [Bool.eq_false_iff]
          intro ht
          rw [(overwrites_spec ht).2] at hd
          exact List.not_mem_nil hd
        simp [shielded, hset, hd]
      have hstep : ∀ d, shielded d steps = true ∨
          (step.effect row).value d = (step.effect row').value d := by
        intro d
        by_cases hd : step.column = d
        · subst hd
          rw [value_effect_column, value_effect_column, result_congr hreads]
          exact .inr rfl
        · rw [value_effect_of_ne hd, value_effect_of_ne hd]
          refine (h d).imp_left fun hs => ?_
          have hset : step.overwrites d = false := by
            rw [Bool.eq_false_iff]
            exact fun ht => hd (overwrites_spec ht).1
          rw [shielded, hset, Bool.false_or, Bool.and_eq_true] at hs
          exact hs.2
      exact ih hstep

theorem runSteps_nil {steps : List Step} {row : CSVRow} {c : Str}
    (hsteps : ∀ step ∈ steps, step.overwrites c = false) (hrow : row.value c = []) :
    (runSteps steps row).value c = [] := by
  induction steps generalizing row with
  | nil => exact hrow
  | cons step steps ih =>
      apply ih (fun s hs => hsteps s (List.mem_cons_of_mem _ hs))
      by_cases hc : step.column = c
      · subst hc
        rw [value_effect_column]
        exact result_nil (hsteps step (by simp)) hrow
      · rw [value_effect_of_ne hc, hrow]

structure Leftover (header : Str) (steps : List Step) (row : CSVRow) : Prop where
  columns_eq : row.columns = headerColumns header
  value_nil : ∀ c, c ∉ staleColumns header steps → row.value c = []

theorem parse_leftover {header line : Str} (hfit : Fits header line) {row : CSVRow}
    (hcols : row.columns = headerColumns header) :
    ∃ row', row.parse (stripLine line) = some row' ∧ row'.columns = headerColumns header ∧
      (∀ c, c ∉ (headerColumns header).take (lineFields (stripLine line)).length →
        row'.value c = row.value c) ∧
      ∀ c ∈ (headerColumns header).take (lineFields (stripLine line)).length,
        row'.value c =
          (assignFields ∅ (headerColumns header) (lineFields (stripLine line))).getD c [] := by
  have hp := parse_eq row (stripLine line)
  rw [hcols] at hp
  exact ⟨_, hp.trans (if_pos hfit), rfl, fun c hc => getD_assignFields_of_not_mem _ hc,
    fun c hc => getD_assignFields_of_mem _ _ hc⟩

theorem operate_leftover {header : Str} {chain : List Transformer} {row : CSVRow}
    (h : Leftover header (chain.flatMap Transformer.steps) row) (lookups : List Str) :
    Leftover header (chain.flatMap Transformer.steps) ((operate chain row).touchAll lookups) := by
  rw [operate_eq_runSteps]
  constructor
  · rw [(touchAll_keeps _ _).2, (runSteps_keeps _ row).2, h.columns_eq]
  · intro c hc
    rw [value_touchAll]
    refine runSteps_nil (fun step hs => ?_) (h.value_nil c hc)
    rw [Bool.eq_false_iff]
    intro ht
    -- a step that sets c makes c one of the stale columns
    obtain ⟨rfl, -⟩ := overwrites_spec ht
    exact hc (List.mem_append_right _ (List.mem_map_of_mem (List.mem_filter.mpr ⟨hs, ht⟩)))

theorem feedLines_leftover {header : Str} {chain : List Transformer} {before : List Str}
    (hfit : ∀ line ∈ before, Fits header line) (lookups : Nat → List Str) {row : CSVRow}
    (hrow : Leftover header (chain.flatMap Transformer.steps) row) (seen : List CSVRow) :
    ∃ rows row', rows.length = before.length ∧
      Leftover header (chain.flatMap Transformer.steps) row' ∧
      ∀ rest, feedLines (seeRow chain lookups) (before ++ rest) row seen =
        feedLines (seeRow chain lookups) rest row' (seen ++ rows) := by
  induction before generalizing row seen with
  | nil => exact ⟨[], row, rfl, hrow, fun rest => by rw [List.append_nil]; rfl⟩
  | cons line before ih =>
      obtain ⟨row₁, hp, hcols, hkeep, -⟩ := parse_leftover (hfit line (by simp)) hrow.columns_eq
      have hrow₁ : Leftover header (chain.flatMap Transformer.steps) row₁ := by
        refine ⟨hcols, fun c hc => ?_⟩
        rw [hkeep c fun hm => hc (List.mem_append_left _ (List.mem_of_mem_take hm))]
        exact hrow.value_nil c hc
      obtain ⟨rows, row', hlen, hrow', hfeed⟩ := ih (fun l hl => hfit l (List.mem_cons_of_mem _ hl))
        (operate_leftover hrow₁ (lookups seen.length)) (seen ++ [operate chain row₁])
      refine ⟨operate chain row₁ :: rows, row', by simp [hlen], hrow', fun rest => ?_⟩
      rw [List.cons_append, feedLines, hp]
      simp only [Option.bind_eq_bind, Option.bind_some, seeRow, Bool.false_eq_true, if_false]
      rw [hfeed rest, List.append_assoc]
      rfl

theorem empty_leftover (header : Str) (steps : List Step) :
    Leftover header steps (CSVRow.empty.setColumns (headerColumns header)) :=
  ⟨rfl, fun c _ => by rw [value_setColumns, value_empty]⟩

theorem seenRows_last {header line : Str} (chain : List Transformer) {before : List Str}
    (hheader : '\n' ∉ header) (hline : '\n' ∉ line) (hfit : Fits header line)
    (hbefore : ∀ l ∈ before, '\n' ∉ l ∧ Fits header l) (lookups : Nat → List Str) :
    ∃ rows row row₁, seenRows chain lookups header (before ++ [line]) =
        some (rows ++ [operate chain row₁]) ∧
      rows.length = before.length ∧ Leftover header (chain.flatMap Transformer.steps) row ∧
      row.parse (stripLine line) = some row₁ := by
  have hlines : ∀ l ∈ before ++ [line], '\n' ∉ l := by
    intro l hl
    rcases List.mem_append.mp hl with hl | hl
    · exact (hbefore l hl).1
    · rw [List.mem_singleton.mp hl]
      exact hline
  rw [seenRows, forRows_unlines (seeRow_keepsLine chain lookups) hheader hlines]
  obtain ⟨rows, row, hlen, hrow, hfeed⟩ := feedLines_leftover (fun l hl => (hbefore l hl).2) lookups
    (empty_leftover header (chain.flatMap Transformer.steps)) []
  obtain ⟨row₁, hp, -⟩ := parse_leftover hfit hrow.columns_eq
  refine ⟨rows, row, row₁, ?_, hlen, hrow, hp⟩
  rw [hfeed, feedLines, hp]
  simp only [Option.bind_eq_bind, Option.bind_some, seeRow, Bool.false_eq_true, if_false, feedLines,
    List.nil_append]

/-- Whatever lines come before it, publish sees the same values for a settled
line. -/
theorem seenRows_isolated {header line : Str} {chain : List Transformer} (hheader : '\n' ∉ header)
    (hline : '\n' ∉ line) (hfit : Fits header line)
    (hsettled : Settled header (chain.flatMap Transformer.steps) line) {before before' : List Str}
    (hbefore : ∀ l ∈ before, '\n' ∉ l ∧ Fits header l)
    (hbefore' : ∀ l ∈ before', '\n' ∉ l ∧ Fits header l) (lookups lookups' : Nat → List Str) :
    ∃ rows row rows' row',
      seenRows chain lookups header (before ++ [line]) = some (rows ++ [row]) ∧
      seenRows chain lookups' header (before' ++ [line]) = some (rows' ++ [row']) ∧
      rows.length = before.length ∧ rows'.length = before'.length ∧
      ∀ c, row.value c = row'.value c := by
  obtain ⟨rows, row, row₁, hseen, hlen, hrow, hp⟩ :=
    seenRows_last chain hheader hline hfit hbefore lookups
  obtain ⟨rows', row', row₁', hseen', hlen', hrow', hp'⟩ :=
    seenRows_last chain hheader hline hfit hbefore' lookups'
  refine ⟨rows, operate chain row₁, rows', operate chain row₁', hseen, hseen', hlen, hlen', ?_⟩
  intro c
  rw [operate_eq_runSteps, operate_eq_runSteps]
  refine runSteps_agree (fun d => ?_) c
  obtain ⟨_, hq, -, hkeep, hassign⟩ := parse_leftover hfit hrow.columns_eq
  obtain rfl := Option.some.inj (hp.symm.trans hq)
  obtain ⟨_, hq', -, hkeep', hassign'⟩ := parse_leftover hfit hrow'.columns_eq
  obtain rfl := Option.some.inj (hp'.symm.trans hq')
  by_cases hd : d ∈ (headerColumns header).take (lineFields (stripLine line)).length
  · exact .inr ((hassign d hd).trans (hassign' d hd).symm)
  · by_cases hs : d ∈ staleColumns header (chain.flatMap Transformer.steps)
    · exact .inl ((hsettled d hs).resolve_left hd)
    · rw [hkeep d hd, hkeep' d hd, hrow.value_nil d hs, hrow'.value_nil d hs]
      exact .inr rfl

theorem runSteps_value_of_ne {steps : List Step} {c : Str} (h : ∀ step ∈ steps, step.column ≠ c)
    (row : CSVRow) : (runSteps steps row).value c = row.value c := by
  induction steps generalizing row with
  | nil => rfl
  | cons step steps ih =>
      rw [runSteps, List.foldl_cons]
      exact (ih (fun s hs => h s (List.mem_cons_of_mem _ hs)) _).trans
        (value_effect_of_ne (h step List.mem_cons_self) row)

theorem exists_full_line {header : Str} (hne : headerColumns header ≠ []) :
    ∃ first, '\n' ∉ first ∧ Fits header first ∧ ∀ (row : CSVRow) (c : Str),
      row.columns = headerColumns header → c ∈ headerColumns header →
      ∃ row', row.parse (stripLine first) = some row' ∧ row'.columns = headerColumns header ∧
        row'.value c = ['x'] := by
  let cells := List.replicate (headerColumns header).length (⟨['x'], true, by decide, by decide⟩ : Cell)
  have hcells : cells ≠ [] := by simpa [cells] using hne
  have hbreak := renderRecord_noBreak cells
  have hfields : lineFields (stripLine (renderRecord cells)) =
      List.replicate (headerColumns header).length ['x'] := by
    rw [stripLine_of_not_mem hbreak.1 hbreak.2, lineFields_renderRecord cells hcells, List.map_replicate]
  have hfit : Fits header (renderRecord cells) := by
    rw [Fits, hfields, List.length_replicate]
  refine ⟨renderRecord cells, hbreak.2, hfit, ?_⟩
  intro row c hcols hc
  obtain ⟨row', hp, hcols', -, hassign⟩ := parse_leftover hfit hcols
  have htake : c ∈ (headerColumns header).take
      (lineFields (stripLine (renderRecord cells))).length := by
    rwa [hfields, List.length_replicate, List.take_length]
  have hfield := getD_assignFields_mem ∅ htake
  rw [← hassign c htake, hfields] at hfield
  exact ⟨row', hp, hcols', List.eq_of_mem_replicate hfield⟩

/-- A column that the line has no field for and that no transformer writes is
seen with what an earlier line has left in it. -/
theorem seenRows_unsettled {header line : Str} {chain : List Transformer} (hheader : '\n' ∉ header)
    (hline : '\n' ∉ line) (hfit : Fits header line) {c : Str} (hc : c ∈ headerColumns header)
    (hfield : c ∉ (headerColumns header).take (lineFields (stripLine line)).length)
    (hwritten : ∀ step ∈ chain.flatMap Transformer.steps, step.column ≠ c)
    (lookups : Nat → List Str) :
    ∃ first rows row row', ('\n' ∉ first ∧ Fits header first) ∧
      seenRows chain lookups header [first, line] = some (rows ++ [row]) ∧
      seenRows chain lookups header [line] = some [row'] ∧ row.value c ≠ row'.value c := by
  obtain ⟨first, hfirst, hfits, hfull⟩ := exists_full_line (List.ne_nil_of_mem hc)
  obtain ⟨row₁, hp₁, hcols₁, hval₁⟩ := hfull _ c (empty_leftover header []).columns_eq hc
  have hseen (row : CSVRow) : (operate chain row).value c = row.value c := by
    rw [operate_eq_runSteps, runSteps_value_of_ne hwritten]
  have hcols₂ : ((operate chain row₁).touchAll (lookups 0)).columns = headerColumns header := by
    rw [(touchAll_keeps _ _).2, operate_eq_runSteps, (runSteps_keeps _ row₁).2, hcols₁]
  obtain ⟨row₂, hp₂, -, hkeep₂, -⟩ := parse_leftover hfit hcols₂
  obtain ⟨row₃, hp₃, -, hkeep₃, -⟩ := parse_leftover hfit (empty_leftover header []).columns_eq
  refine ⟨first, [operate chain row₁], operate chain row₂, operate chain row₃, ⟨hfirst, hfits⟩,
    ?_, ?_, ?_⟩
  · rw [seenRows, forRows_unlines (seeRow_keepsLine chain lookups) hheader (by simp [hfirst, hline])]
    simp [feedLines, seeRow, hp₁, hp₂]
  · rw [seenRows, forRows_unlines (seeRow_keepsLine chain lookups) hheader (by simp [hline])]
    simp [feedLines, seeRow, hp₃]
  · rw [hseen, hseen, hkeep₂ c hfield, hkeep₃ c hfield, value_touchAll, hseen, hval₁,
      value_setColumns, value_empty]
    decide

theorem seenRows_isolated_set :
    ∃ rows row rows' row',
      seenRows [.decorator (.append ['b']) ['a'] (.decorator (.set ['0']) ['b'] .nullptr)] (fun _ => [])
        ['a', ',', 'b'] ([['1', ',', '2']] ++ [['3']]) = some (rows ++ [row]) ∧
      seenRows [.decorator (.append ['b']) ['a'] (.decorator (.set ['0']) ['b'] .nullptr)] (fun _ => [])
        ['a', ',', 'b'] ([] ++ [['3']]) = some (rows' ++ [row']) ∧
      rows.length = 1 ∧ rows'.length = 0 ∧ ∀ c, row.value c = row'.value c :=
  seenRows_isolated (by decide) (by decide) (by decide) (by decide) (by decide) (by decide) _ _

/-- With no transformers, the line 3 is seen with the second field of the line
before it. -/
theorem seenRows_leak :
    ¬ ∃ rows row rows' row',
      seenRows [] (fun _ => []) ['a', ',', 'b'] ([['1', ',', '2']] ++ [['3']]) = some (rows ++ [row]) ∧
      seenRows [] (fun _ => []) ['a', ',', 'b'] ([] ++ [['3']]) = some (rows' ++ [row']) ∧
      ∀ c, row.value c = row'.value c := by
  rintro ⟨rows, row, rows', row', hseen, hseen', hval⟩
  have h := congrArg (Option.map fun rows => rows.getLast?.map (CSVRow.value · ['b'])) hseen
  have h' := congrArg (Option.map fun rows => rows.getLast?.map (CSVRow.value · ['b'])) hseen'
  simp only [Option.map_some, List.getLast?_concat] at h h'
  rw [← hval ['b'], ← h] at h'
  exact absurd h' (by decide)

end Flycatcher.RowIsolation
