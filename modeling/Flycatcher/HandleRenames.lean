import Flycatcher.Handle
import Mathlib.Data.List.Basic

namespace Flycatcher.HandleRenames

open Library.TextStreams Library.Directories Library.Runs FileNames Handle

def workersStep (s : State) (l : Nat × Action) : Option State := workerStep s l.1 l.2

def started (dir : Str) (d : Directory Str Str) : State :=
  { init d with queue := startupListing dir d.names }

def FreeTargets (d : Directory Str Str) : Prop :=
  ∀ name ∈ d.names, ¬ doneMark <:+ name → inprogress name ∉ d.names ∧ done name ∉ d.names

structure Tracked (d : Directory Str Str) (stage : Str → Stage) (s : State) : Prop where
  entries : s.directory.entries = d.entries.map fun entry => ((stage entry.1).rename entry.1, entry.2)
  archive : ∀ name, doneMark <:+ name → stage name = .waiting
  queue : s.queue.Nodup ∧ ∀ name ∈ s.queue, name ∈ d.names ∧ ¬ doneMark <:+ name ∧
    stage name = .waiting ∧ ∀ w st, holds (s.workers w) ≠ some (name, st)
  workers : ∀ w name st, holds (s.workers w) = some (name, st) →
    name ∈ d.names ∧ ¬ doneMark <:+ name ∧ stage name = st
  distinct : ∀ w w' name st st', holds (s.workers w) = some (name, st) →
    holds (s.workers w') = some (name, st') → w = w'
  moves : ∀ move ∈ s.moves, move.replaced = false

variable {d : Directory Str Str} {stage : Str → Stage}

theorem rename_unique (hd : FreeTargets d) (harchive : ∀ name, doneMark <:+ name → stage name = .waiting)
    {name other : Str} {st : Stage} (hname : name ∈ d.names ∧ ¬ doneMark <:+ name)
    (hother : other ∈ d.names) (he : (stage other).rename other = st.rename name) :
    other = name ∧ stage other = st := by
  have hlisted (hs : stage other ≠ .waiting) : ¬ doneMark <:+ other :=
    fun hm => hs (harchive other hm)
  cases hs : stage other with
  | waiting =>
      rw [hs] at he
      cases st with
      | waiting => exact ⟨he, rfl⟩
      | inprogress =>
          have he : other = inprogress name := he
          exact absurd (he ▸ hother) (hd name hname.1 hname.2).1
      | done =>
          have he : other = done name := he
          exact absurd (he ▸ hother) (hd name hname.1 hname.2).2
  | inprogress =>
      have hfree := hd other hother (hlisted (by rw [hs]; decide))
      rw [hs] at he
      cases st with
      | waiting =>
          have he : inprogress other = name := he
          exact absurd (he ▸ hname.1) hfree.1
      | inprogress => exact ⟨inprogress_injective he, rfl⟩
      | done => exact absurd he (inprogress_ne_done other name)
  | done =>
      rw [hs] at he
      cases st with
      | waiting =>
          have he : done other = name := he
          exact absurd (he ▸ doneMark_suffix_done other) hname.2
      | inprogress => exact absurd he.symm (inprogress_ne_done name other)
      | done => exact ⟨done_injective he, rfl⟩

theorem mem_names {s : State} (hs : Tracked d stage s) {name : Str} :
    name ∈ s.directory.names ↔ ∃ other ∈ d.names, (stage other).rename other = name := by
  simp [Directory.names, hs.entries]

theorem moved_entries (hd : FreeTargets d) {s : State} (hs : Tracked d stage s) {name : Str} {st : Stage}
    (hname : name ∈ d.names ∧ ¬ doneMark <:+ name) (hne : stage name ≠ st) {e : Directory Str Str}
    (hr : s.directory.rename ((stage name).rename name) (st.rename name) = some e) :
    st.rename name ∉ s.directory.names ∧ e.entries =
      d.entries.map fun entry => ((Function.update stage name st entry.1).rename entry.1, entry.2) := by
  have hfree : st.rename name ∉ s.directory.names := by
    rw [mem_names hs]
    rintro ⟨other, hother, he⟩
    obtain ⟨rfl, hst⟩ := rename_unique hd hs.archive hname hother he
    exact hne hst
  have hsource : (stage name).rename name ≠ st.rename name := by
    intro he
    exact hne (rename_unique hd hs.archive hname hname.1 he).2
  refine ⟨hfree, ?_⟩
  rw [Directory.entries_rename hsource hfree hr, hs.entries, List.map_map]
  apply List.map_congr_left
  intro entry hm
  have hother : entry.1 ∈ d.names := List.mem_map_of_mem hm
  by_cases he : entry.1 = name
  · simp [Directory.renamed, he]
  · have hold : (stage entry.1).rename entry.1 ≠ (stage name).rename name := by
      intro h
      exact he (rename_unique hd hs.archive hname hother h).1
    simp [Directory.renamed, he, hold]

theorem init_tracked (dir : Str) (d : Directory Str Str) :
    Tracked d (fun _ => .waiting) (started dir d) := by
  refine ⟨?_, fun _ _ => rfl, ⟨?_, ?_⟩, ?_, ?_, ?_⟩
  · simp [started, init, Stage.rename]
  · exact d.nodup.filter _
  · intro name hm
    obtain ⟨hn, hm⟩ := mem_startupListing.mp hm
    exact ⟨hn, hm, rfl, fun w st => by simp [started, init, holds]⟩
  · intro w name st h
    cases h
  · intro w w' name st st' h
    cases h
  · intro move hm
    cases hm

theorem tracked_stay {s t : State} (hs : Tracked d stage s) (hd : t.directory = s.directory)
    (hq : t.queue = s.queue) (hm : t.moves = s.moves)
    (hw : ∀ w, holds (t.workers w) = holds (s.workers w) ∨ holds (t.workers w) = none) :
    Tracked d stage t := by
  have hold {w : Nat} {p : Str × Stage} (h : holds (t.workers w) = some p) :
      holds (s.workers w) = some p := by
    rcases hw w with he | he
    · rw [← he, h]
    · rw [he] at h
      cases h
  refine ⟨hd ▸ hs.entries, hs.archive, hq ▸ ⟨hs.queue.1, ?_⟩, ?_, ?_, hm ▸ hs.moves⟩
  · intro name hn
    obtain ⟨h₁, h₂, h₃, h₄⟩ := hs.queue.2 name hn
    exact ⟨h₁, h₂, h₃, fun w st h => h₄ w st (hold h)⟩
  · intro w name st h
    exact hs.workers w name st (hold h)
  · intro w w' name st st' h h'
    exact hs.distinct w w' name st st' (hold h) (hold h')

theorem holds_goto {s : State} {w w' : Nat} {phase : Phase} {p q : Str × Stage}
    (hphase : holds phase = some q ∨ holds phase = none)
    (h : holds ((s.goto w phase).workers w') = some p) :
    w' = w ∧ p = q ∨ w' ≠ w ∧ holds (s.workers w') = some p := by
  by_cases hw : w' = w
  · subst hw
    simp only [State.goto, Function.update_self] at h
    rcases hphase with he | he
    · exact .inl ⟨rfl, Option.some.inj (h.symm.trans he)⟩
    · cases he.symm.trans h
  · simp only [State.goto, Function.update_of_ne hw] at h
    exact .inr ⟨hw, h⟩

theorem tracked_take {s : State} (hs : Tracked d stage s) {w : Nat} {name : Str} {queue : List Str}
    (hq : s.queue = name :: queue) :
    Tracked d stage (State.goto { s with queue } w (.taken name)) := by
  obtain ⟨hnodup, hqueue⟩ := hs.queue
  rw [hq] at hnodup hqueue
  obtain ⟨hn, hm, hstage, hfree⟩ := hqueue name List.mem_cons_self
  obtain ⟨hnot, hnodup⟩ := List.nodup_cons.mp hnodup
  have hold {w' : Nat} {p : Str × Stage}
      (h : holds ((State.goto { s with queue } w (.taken name)).workers w') = some p) :
      w' = w ∧ p = (name, .waiting) ∨ w' ≠ w ∧ holds (s.workers w') = some p :=
    holds_goto (.inl rfl) h
  refine ⟨hs.entries, hs.archive, ⟨hnodup, ?_⟩, ?_, ?_, hs.moves⟩
  · intro other ho
    obtain ⟨h₁, h₂, h₃, h₄⟩ := hqueue other (List.mem_cons_of_mem _ ho)
    refine ⟨h₁, h₂, h₃, ?_⟩
    intro w' st h
    rcases hold h with ⟨-, he⟩ | ⟨-, h⟩
    · cases he
      exact hnot ho
    · exact h₄ w' st h
  · intro w' other st h
    rcases hold h with ⟨-, he⟩ | ⟨-, h⟩
    · cases he
      exact ⟨hn, hm, hstage⟩
    · exact hs.workers w' other st h
  · intro w₁ w₂ other st st' h h'
    rcases hold h with ⟨rfl, he⟩ | ⟨-, ho⟩ <;> rcases hold h' with ⟨rfl, he'⟩ | ⟨-, ho'⟩
    · rfl
    · cases he
      exact absurd ho' (hfree w₂ st')
    · cases he'
      exact absurd ho (hfree w₁ st)
    · exact hs.distinct w₁ w₂ other st st' ho ho'

theorem tracked_moved (hd : FreeTargets d) {s : State} (hs : Tracked d stage s) {w : Nat} {name : Str}
    {old st : Stage} (hw : holds (s.workers w) = some (name, old)) (hne : old ≠ st)
    {e : Directory Str Str} (hr : s.directory.rename (old.rename name) (st.rename name) = some e)
    {phase : Phase} (hphase : holds phase = some (name, st) ∨ holds phase = none) :
    Tracked d (Function.update stage name st)
      ((s.moved e (old.rename name) (st.rename name)).goto w phase) := by
  obtain ⟨hn, hm, rfl⟩ := hs.workers w name old hw
  obtain ⟨hfree, hentries⟩ := moved_entries hd hs ⟨hn, hm⟩ hne hr
  have hold {w' : Nat} {p : Str × Stage} (h : holds (((s.moved e ((stage name).rename name)
      (st.rename name)).goto w phase).workers w') = some p) :
      w' = w ∧ p = (name, st) ∨ w' ≠ w ∧ holds (s.workers w') = some p :=
    holds_goto hphase h
  refine ⟨hentries, ?_, ⟨hs.queue.1, ?_⟩, ?_, ?_, ?_⟩
  · intro other ho
    have hother : other ≠ name := fun he => hm (he ▸ ho)
    rw [Function.update_of_ne hother]
    exact hs.archive other ho
  · intro other ho
    obtain ⟨h₁, h₂, h₃, h₄⟩ := hs.queue.2 other ho
    have hother : other ≠ name := by
      rintro rfl
      exact h₄ w _ hw
    refine ⟨h₁, h₂, by rw [Function.update_of_ne hother, h₃], ?_⟩
    intro w' st' h
    rcases hold h with ⟨-, he⟩ | ⟨-, h⟩
    · cases he
      exact hother rfl
    · exact h₄ w' st' h
  · intro w' other st' h
    rcases hold h with ⟨-, he⟩ | ⟨hw', ho⟩
    · cases he
      exact ⟨hn, hm, Function.update_self ..⟩
    · obtain ⟨h₁, h₂, h₃⟩ := hs.workers w' other st' ho
      have hother : other ≠ name := by
        rintro rfl
        exact hw' (hs.distinct w' w other st' _ ho hw)
      exact ⟨h₁, h₂, by rw [Function.update_of_ne hother, h₃]⟩
  · intro w₁ w₂ other st₁ st₂ h h'
    rcases hold h with ⟨rfl, he⟩ | ⟨-, ho⟩ <;> rcases hold h' with ⟨rfl, he'⟩ | ⟨-, ho'⟩
    · rfl
    · cases he
      exact (hs.distinct w₂ w₁ name st₂ _ ho' hw).symm
    · cases he'
      exact hs.distinct w₁ w₂ name st₁ _ ho hw
    · exact hs.distinct w₁ w₂ other st₁ st₂ ho ho'
  · intro move hmove
    rcases List.mem_append.mp hmove with hmove | hmove
    · exact hs.moves move hmove
    · rw [List.mem_singleton.mp hmove]
      exact decide_eq_false hfree

theorem step_tracked (hd : FreeTargets d) (s : State) (l : Nat × Action) (t : State)
    (h : workersStep s l = some t) (hs : ∃ stage, Tracked d stage s) : ∃ stage, Tracked d stage t := by
  obtain ⟨w, a⟩ := l
  obtain ⟨stage, hs⟩ := hs
  cases workerStep_worked h with
  | take hw hq => exact ⟨stage, tracked_take hs hq⟩
  | increment hw | opened hw | endOfFile hw | loadFails hw =>
      exact ⟨stage, tracked_stay hs rfl rfl rfl (goto_holds s w _ (.inl (by rw [hw]; rfl)))⟩
  | @renamed name e hw hr =>
      have hold : holds (s.workers w) = some (name, .waiting) := by rw [hw]; rfl
      have hne : Stage.waiting ≠ .inprogress := by decide
      exact ⟨_, tracked_moved hd hs hold hne hr (.inl rfl)⟩
  | missing hw | unarchived hw | decrement hw =>
      exact ⟨stage, tracked_stay hs rfl rfl rfl (goto_holds s w _ (.inr rfl))⟩
  | row outcome hw =>
      exact ⟨stage, tracked_stay hs rfl rfl rfl
        (goto_holds s w _ (.inl (by rw [afterRow_holds, hw]; rfl)))⟩
  | @archived name rows ending e hw hr =>
      have hold : holds (s.workers w) = some (name, .inprogress) := by rw [hw]; rfl
      have hne : Stage.inprogress ≠ .done := by decide
      exact ⟨_, tracked_moved hd hs hold hne hr (.inr rfl)⟩

theorem tracked_contents {s : State} (hs : Tracked d stage s) :
    s.directory.contents = d.contents := by
  rw [Directory.contents, hs.entries, List.map_map]
  rfl

theorem exists_run_take (before : List Str) (name : Str) (after : List Str) {s : State} {w : Nat}
    (hq : s.queue = before ++ name :: after) (hw : ∀ w' ≥ w, s.workers w' = .idle) :
    ∃ tr t w', run workersStep s tr = some t ∧ t.directory = s.directory ∧ t.moves = s.moves ∧
      t.workers w' = .entered name := by
  induction before generalizing s w with
  | nil =>
      let s₁ := State.goto { s with queue := after } w (.taken name)
      have hw₁ : s₁.workers w = .taken name := Function.update_self ..
      have h₁ : workersStep s (w, .take) = some s₁ := by
        simp only [workersStep, workerStep, hw w (Nat.le_refl w), hq, List.nil_append, s₁]
      have h₂ : workersStep s₁ (w, .increment) = some (State.goto
          { s₁ with activeProcessors := s₁.activeProcessors + 1 } w (.entered name)) := by
        simp only [workersStep, workerStep, hw₁]
      exact ⟨_, _, w, run_cons_eq_some.mpr ⟨_, h₁, run_cons_eq_some.mpr ⟨_, h₂, run_nil _ _⟩⟩, rfl, rfl,
        Function.update_self ..⟩
  | cons other before ih =>
      have hstep : workersStep s (w, .take) =
          some (State.goto { s with queue := before ++ name :: after } w (.taken other)) := by
        simp only [workersStep, workerStep, hw w (Nat.le_refl w), hq, List.cons_append]
      obtain ⟨tr, t, w', hr, hd, hm, ht⟩ := @ih
        (State.goto { s with queue := before ++ name :: after } w (.taken other)) (w + 1) rfl (by
          intro w' hw'
          have hne : w' ≠ w := by omega
          simp only [State.goto, Function.update_of_ne hne]
          exact hw w' (by omega))
      exact ⟨(w, .take) :: tr, t, w', run_cons_eq_some.mpr ⟨_, hstep, hr⟩, hd, hm, ht⟩

theorem exists_run_rows {s : State} {w : Nat} {name : Str} {excCount : Nat} {rows : Rows}
    {rest : List Str} (hw : s.workers w = .reading name excCount rows rest) :
    ∃ tr t rows', run workersStep s tr = some t ∧ t.directory = s.directory ∧ t.moves = s.moves ∧
      t.workers w = .closing name rows' .endOfFile := by
  induction rest generalizing s rows with
  | nil =>
      have h : workersStep s (w, .endOfFile) = some (s.goto w (.closing name rows .endOfFile)) := by
        simp only [workersStep, workerStep, hw]
      exact ⟨_, _, rows, run_cons_eq_some.mpr ⟨_, h, run_nil _ _⟩, rfl, rfl, Function.update_self ..⟩
  | cons row rest ih =>
      let s₁ := s.goto w (.reading name excCount (rows ++ [(row, .published)]) rest)
      have hw₁ : s₁.workers w = .reading name excCount _ rest := Function.update_self ..
      have h : workersStep s (w, .row .published) = some s₁ := by
        simp only [workersStep, workerStep, hw, afterRow, s₁]
      obtain ⟨tr, t, rows', hr, hd, hm, ht⟩ := ih hw₁
      exact ⟨_, t, rows', run_cons_eq_some.mpr ⟨_, h, hr⟩, hd, hm, ht⟩

theorem exists_run_renames {s : State} {w : Nat} {name : Str} (hw : s.workers w = .entered name)
    (hn : name ∈ s.directory.names) :
    ∃ tr t e, run workersStep s tr = some t ∧ s.directory.rename name (inprogress name) = some e ∧
      t.moves = s.moves ++ [⟨name, inprogress name, inprogress name ∈ s.directory.names⟩,
        ⟨inprogress name, done name, done name ∈ e.names⟩] := by
  obtain ⟨e, he⟩ := Option.isSome_iff_exists.mp
    (Directory.rename_isSome.mpr hn : (s.directory.rename name (inprogress name)).isSome)
  have hin : inprogress name ∈ e.names := by
    rw [← Directory.find_isSome, Directory.find_rename (inprogress_ne_self name).symm he, if_pos rfl,
      Directory.find_isSome]
    exact hn
  obtain ⟨e', he'⟩ := Option.isSome_iff_exists.mp
    (Directory.rename_isSome.mpr hin : (e.rename (inprogress name) (done name)).isSome)
  let s₁ := (s.moved e name (inprogress name)).goto w (.renamed name)
  let s₂ := s₁.goto w (.reading name 0 [] (rowsOf (s₁.directory.find (inprogress name))))
  have hw₁ : s₁.workers w = .renamed name := Function.update_self ..
  have hw₂ : s₂.workers w = .reading name 0 [] _ := Function.update_self ..
  have h₁ : workersStep s (w, .renameFirst) = some s₁ := by
    simp only [workersStep, workerStep, hw, State.rename, he, Option.map_some]
    rfl
  have h₂ : workersStep s₁ (w, .openFile) = some s₂ := by
    simp only [workersStep, workerStep, hw₁]
    rfl
  obtain ⟨tr, s₃, rows, h₃, hd₃, hm₃, hw₃⟩ := exists_run_rows hw₂
  have hd₃ : s₃.directory = e := hd₃
  have h₄ : ∃ t, workersStep s₃ (w, .renameLast) = some t ∧
      t.moves = s₃.moves ++ [⟨inprogress name, done name, done name ∈ e.names⟩] := by
    have hlast : s₃.rename (inprogress name) (done name) =
        some (s₃.moved e' (inprogress name) (done name)) := by
      rw [State.rename, hd₃, he', Option.map_some, State.moved, hd₃]
    simp only [workersStep, workerStep, hw₃, hlast]
    exact ⟨_, rfl, by rw [← hd₃]; rfl⟩
  obtain ⟨t, h₄, ht⟩ := h₄
  refine ⟨(w, .renameFirst) :: (w, .openFile) :: (tr ++ [(w, .renameLast)]), t, e,
    run_cons_eq_some.mpr ⟨_, h₁, run_cons_eq_some.mpr ⟨_, h₂, ?_⟩⟩, he, ?_⟩
  · rw [run_append, h₃]
    exact run_cons_eq_some.mpr ⟨_, h₄, run_nil _ _⟩
  · rw [ht, hm₃]
    exact List.append_assoc ..

/-- In every run of the processors, no rename replaces a file and the contents
of the directory stay what they were, exactly when the directory has no file
under a name that handle would give to another one. -/
theorem renames_replace_nothing_iff (dir : Str) (d : Directory Str Str) :
    (∀ tr t, run workersStep (started dir d) tr = some t →
      (∀ move ∈ t.moves, move.replaced = false) ∧ t.directory.contents = d.contents) ↔
    ∀ name ∈ d.names, ¬ doneMark <:+ name → inprogress name ∉ d.names ∧ done name ∉ d.names := by
  constructor
  · intro hall name hn hm
    obtain ⟨before, after, hq⟩ := List.append_of_mem ((@mem_startupListing dir _ _).mpr ⟨hn, hm⟩)
    obtain ⟨tr, s, w, hr, hdir, hmoves, hw⟩ :=
      @exists_run_take before name after (started dir d) 0 hq fun _ _ => rfl
    have hdir : s.directory = d := hdir
    have hmoves : s.moves = [] := hmoves
    obtain ⟨tr', t, e, hr', he, ht⟩ := exists_run_renames hw (hdir ▸ hn)
    rw [hmoves, hdir, List.nil_append] at ht
    rw [hdir] at he
    have hfree := (hall (tr ++ tr') t (by rw [run_append, hr]; exact hr')).1
    have hin : inprogress name ∉ d.names :=
      of_decide_eq_false (hfree ⟨name, inprogress name, inprogress name ∈ d.names⟩ (by simp [ht]))
    have hdone : done name ∉ e.names :=
      of_decide_eq_false (hfree ⟨inprogress name, done name, done name ∈ e.names⟩ (by simp [ht]))
    refine ⟨hin, ?_⟩
    rwa [← Directory.find_isSome, Directory.find_rename (inprogress_ne_self name).symm he,
      if_neg (inprogress_ne_done name name).symm, if_neg (done_ne_self name),
      Directory.find_isSome] at hdone
  · intro hd tr t hr
    obtain ⟨stage, hs⟩ := run_invariant (step_tracked hd) hr ⟨_, init_tracked dir d⟩
    exact ⟨hs.moves, tracked_contents hs⟩

/-- The archived file of an earlier run is replaced by a new one of its name. -/
theorem renames_replace_archive :
    ∃ t, run workersStep (started ['d'] ⟨[(['x'], ['1']), (done ['x'], ['2'])], by decide⟩)
        [(0, .take), (0, .increment), (0, .renameFirst), (0, .openFile), (0, .endOfFile),
          (0, .renameLast)] = some t ∧
      (∃ move ∈ t.moves, move.replaced = true) ∧ t.directory.contents = [['1']] :=
  ⟨_, rfl, by decide, by decide⟩

end Flycatcher.HandleRenames
