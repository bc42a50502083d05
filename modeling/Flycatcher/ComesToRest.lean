import Flycatcher.Pipeline

namespace Flycatcher.ComesToRest

open Library.TextStreams Library.Directories Library.Runs FileNames Polling Pipeline

def own : Label → Bool
  | .poller _ | .enqueue | .worker _ _ => true
  | .create _ | .close _ _ | .look _ => false

abbrev Onward (dir : Str) : State → State → Prop :=
  Reaches (step dir) fun s l => own l = true ∧ Caught dir s l

structure Beside (dir : Str) (s t : State) : Prop where
  arrivals : ∃ records, told dir records = [] ∧
    t.arrivals = { s.arrivals with pending := s.arrivals.pending ++ records }
  carried : t.carried = s.carried
  files : t.files = s.files

structure Settled (dir : Str) (w : Nat) (s t : State) : Prop where
  onward : Onward dir s t
  beside : Beside dir s t
  idle : t.handle.workers w = .idle
  others : ∀ v ≠ w, t.handle.workers v = s.handle.workers v
  queue : t.handle.queue = s.handle.queue

variable {dir : Str} {s t u : State} {w : Nat}

theorem Beside.refl (dir : Str) (s : State) : Beside dir s s :=
  ⟨⟨[], rfl, by rw [List.append_nil]⟩, rfl, rfl⟩

theorem Beside.trans (hst : Beside dir s t) (htu : Beside dir t u) : Beside dir s u := by
  obtain ⟨⟨xs, hxs, hx⟩, hct, hft⟩ := hst
  obtain ⟨⟨ys, hys, hy⟩, hcu, hfu⟩ := htu
  refine ⟨⟨xs ++ ys, ?_, ?_⟩, hcu.trans hct, hfu.trans hft⟩
  · rw [told_append, hxs, hys]
    rfl
  · rw [hy, hx, List.append_assoc]

theorem worker_onward {a : Handle.Action} {handle : Handle.State}
    (h : Handle.workerStep s.handle w a = some handle) :
    ∃ t, Onward dir s t ∧ Beside dir s t ∧ t.handle = handle := by
  refine ⟨_, Reaches.one (a := .worker w a) (congrArg (Option.map _) h) ⟨rfl, trivial⟩, ?_, rfl⟩
  refine ⟨?_, rfl, rfl⟩
  refine ⟨if s.arrivals.poller.watching then ownRecords s.handle handle w else [], ?_, ?_⟩
  · split_ifs
    · exact told_own
    · rfl
  · exact foldl_notify _ _

theorem settled_refl (h : s.handle.workers w = .idle) : Settled dir w s s :=
  ⟨Reaches.refl _ _ _, Beside.refl dir s, h, fun _ _ => rfl, rfl⟩

theorem settled_of_step {a : Handle.Action} {handle : Handle.State}
    (h : Handle.workerStep s.handle w a = some handle) (ha : a ≠ .take)
    (hrest : ∀ t : State, t.handle = handle → ∃ u, Settled dir w t u) :
    ∃ u, Settled dir w s u := by
  obtain ⟨t, honward, hbeside, ht⟩ := @worker_onward dir s w a handle h
  obtain ⟨u, hu⟩ := hrest t ht
  have hworked := Handle.workerStep_worked h
  refine ⟨u, honward.trans hu.onward, hbeside.trans hu.beside, hu.idle, ?_, ?_⟩
  · intro v hv
    rw [hu.others v hv, ht]
    exact Handle.worked_others hworked v hv
  · rw [hu.queue, ht]
    cases hworked with
    | take => exact absurd rfl ha
    | _ => rfl

theorem settle_leaving {call : Handle.Call} (h : s.handle.workers w = .leaving call) :
    ∃ t, Settled dir w s t := by
  have hstep : ∃ handle, Handle.workerStep s.handle w .decrement = some handle ∧
      handle.workers w = .idle := by
    simp only [Handle.workerStep, h]
    exact ⟨_, rfl, Handle.goto_workers_self _ _ _⟩
  obtain ⟨handle, hstep, hidle⟩ := hstep
  apply settled_of_step hstep (fun h => by cases h)
  rintro t rfl
  exact ⟨t, settled_refl hidle⟩

theorem settle_closing {name : Str} {rows : Handle.Rows} {ending : Handle.Ending}
    (h : s.handle.workers w = .closing name rows ending) : ∃ t, Settled dir w s t := by
  have hstep : ∃ handle call, Handle.workerStep s.handle w .renameLast = some handle ∧
      handle.workers w = .leaving call := by
    simp only [Handle.workerStep, h]
    rcases Handle.rename_cases s.handle (inprogress name) (done name) with ⟨d, -, he⟩ | ⟨-, he⟩
    · rw [he]
      exact ⟨_, _, rfl, Handle.goto_workers_self _ _ _⟩
    · rw [he]
      exact ⟨_, _, rfl, Handle.goto_workers_self _ _ _⟩
  obtain ⟨handle, call, hstep, hleaving⟩ := hstep
  apply settled_of_step hstep (fun h => by cases h)
  rintro t rfl
  exact settle_leaving hleaving

theorem settle_reading {name : Str} {excCount : Nat} {rows : Handle.Rows} {rest : List Str}
    (h : s.handle.workers w = .reading name excCount rows rest) : ∃ t, Settled dir w s t := by
  induction rest generalizing s rows with
  | nil =>
      have hstep : Handle.workerStep s.handle w .endOfFile =
          some (s.handle.goto w (.closing name rows .endOfFile)) := by
        simp only [Handle.workerStep, h]
      apply settled_of_step hstep (fun h => by cases h)
      rintro t ht
      apply @settle_closing dir t w name rows .endOfFile
      rw [ht]
      exact Handle.goto_workers_self _ _ _
  | cons row rest ih =>
      have hstep : Handle.workerStep s.handle w (.row .published) =
          some (s.handle.goto w (.reading name excCount (rows ++ [(row, .published)]) rest)) := by
        simp only [Handle.workerStep, h]
        rfl
      apply settled_of_step hstep (fun h => by cases h)
      rintro t ht
      apply @ih t (rows ++ [(row, .published)])
      rw [ht]
      exact Handle.goto_workers_self _ _ _

theorem settle_renamed {name : Str} (h : s.handle.workers w = .renamed name) :
    ∃ t, Settled dir w s t := by
  have hstep : ∃ handle rest, Handle.workerStep s.handle w .openFile = some handle ∧
      handle.workers w = .reading name 0 [] rest := by
    simp only [Handle.workerStep, h]
    exact ⟨_, _, rfl, Handle.goto_workers_self _ _ _⟩
  obtain ⟨handle, rest, hstep, hreading⟩ := hstep
  apply settled_of_step hstep (fun h => by cases h)
  rintro t rfl
  exact settle_reading hreading

theorem settle_entered {name : Str} (h : s.handle.workers w = .entered name) :
    ∃ t, Settled dir w s t := by
  have hstep : ∃ handle, Handle.workerStep s.handle w .renameFirst = some handle ∧
      (handle.workers w = .renamed name ∨ ∃ call, handle.workers w = .leaving call) := by
    simp only [Handle.workerStep, h]
    rcases Handle.rename_cases s.handle name (inprogress name) with ⟨d, -, he⟩ | ⟨-, he⟩
    · rw [he]
      exact ⟨_, rfl, .inl (Handle.goto_workers_self _ _ _)⟩
    · rw [he]
      exact ⟨_, rfl, .inr ⟨_, Handle.goto_workers_self _ _ _⟩⟩
  obtain ⟨handle, hstep, hphase⟩ := hstep
  apply settled_of_step hstep (fun h => by cases h)
  rintro t rfl
  rcases hphase with hrenamed | ⟨call, hleaving⟩
  · exact settle_renamed hrenamed
  · exact settle_leaving hleaving

theorem settle_taken {name : Str} (h : s.handle.workers w = .taken name) :
    ∃ t, Settled dir w s t := by
  have hstep : ∃ handle, Handle.workerStep s.handle w .increment = some handle ∧
      handle.workers w = .entered name := by
    simp only [Handle.workerStep, h]
    exact ⟨_, rfl, Handle.goto_workers_self _ _ _⟩
  obtain ⟨handle, hstep, hentered⟩ := hstep
  apply settled_of_step hstep (fun h => by cases h)
  rintro t rfl
  exact settle_entered hentered

theorem settle (dir : Str) (s : State) (w : Nat) : ∃ t, Settled dir w s t := by
  cases h : s.handle.workers w with
  | idle => exact ⟨s, settled_refl h⟩
  | taken name => exact settle_taken h
  | entered name => exact settle_entered h
  | renamed name => exact settle_renamed h
  | reading name excCount rows rest => exact settle_reading h
  | closing name rows ending => exact settle_closing h
  | leaving call => exact settle_leaving h

structure Clear (s : State) : Prop where
  carried : s.carried = none
  queue : s.handle.queue = []
  idle : ∀ w, s.handle.workers w = .idle

theorem settle_all {n : Nat} (h : ∀ w, n ≤ w → s.handle.workers w = .idle) :
    ∃ t, Onward dir s t ∧ Beside dir s t ∧ ∀ w, t.handle.workers w = .idle := by
  induction n generalizing s with
  | zero => exact ⟨s, Reaches.refl _ _ _, Beside.refl dir s, fun w => h w (Nat.zero_le w)⟩
  | succ n ih =>
      obtain ⟨t, ht⟩ := settle dir s n
      have hidle : ∀ w, n ≤ w → t.handle.workers w = .idle := by
        intro w hw
        by_cases hn : w = n
        · rw [hn]
          exact ht.idle
        · rw [ht.others w hn]
          exact h w (by omega)
      obtain ⟨u, honward, hbeside, hu⟩ := ih hidle
      exact ⟨u, ht.onward.trans honward, ht.beside.trans hbeside, hu⟩

theorem drain_queue (h : ∀ w, s.handle.workers w = .idle) :
    ∃ t, Onward dir s t ∧ Beside dir s t ∧ t.handle.queue = [] ∧
      ∀ w, t.handle.workers w = .idle := by
  induction hq : s.handle.queue generalizing s with
  | nil => exact ⟨s, Reaches.refl _ _ _, Beside.refl dir s, hq, h⟩
  | cons name queue ih =>
      have hstep : ∃ handle, Handle.workerStep s.handle 0 .take = some handle ∧
          handle.queue = queue ∧ ∀ v ≠ 0, handle.workers v = .idle := by
        simp only [Handle.workerStep, h, hq]
        refine ⟨_, rfl, rfl, ?_⟩
        intro v hv
        exact (Function.update_of_ne hv _ _).trans (h v)
      obtain ⟨handle, hstep, hqueue, hothers⟩ := hstep
      obtain ⟨t, honward, hbeside, rfl⟩ := @worker_onward dir s 0 .take handle hstep
      obtain ⟨u, hu⟩ := settle dir t 0
      have hidle : ∀ w, u.handle.workers w = .idle := by
        intro w
        by_cases hw : w = 0
        · rw [hw]
          exact hu.idle
        · rw [hu.others w hw]
          exact hothers w hw
      obtain ⟨v, honward', hbeside', hv⟩ := ih hidle (hu.queue.trans hqueue)
      exact ⟨v, honward.trans (hu.onward.trans honward'),
        hbeside.trans (hu.beside.trans hbeside'), hv⟩

theorem clear_up (h : ∀ w, s.handle.workers w = .idle) :
    ∃ t, Onward dir s t ∧ Clear t ∧ t.files = s.files ∧ ∃ records, told dir records = [] ∧
      t.arrivals = { s.arrivals with pending := s.arrivals.pending ++ records } := by
  have hhand : ∃ t, Onward dir s t ∧ t.carried = none ∧ t.files = s.files ∧
      t.arrivals = s.arrivals ∧ ∀ w, t.handle.workers w = .idle := by
    cases hc : s.carried with
    | none => exact ⟨s, Reaches.refl _ _ _, hc, rfl, rfl, h⟩
    | some path =>
        have hstep : step dir s .enqueue = some (s.handOver path) := by
          rw [step, hc]
          rfl
        refine ⟨_, Reaches.one hstep ⟨rfl, trivial⟩, ?_⟩
        rw [State.handOver]
        split_ifs
        · exact ⟨rfl, rfl, rfl, h⟩
        · exact ⟨rfl, rfl, rfl, h⟩
  obtain ⟨t, honward, hcarried, hfiles, harrivals, hidle⟩ := hhand
  obtain ⟨u, honward', hbeside, hqueue, hidle'⟩ := @drain_queue dir t hidle
  obtain ⟨records, htold, hu⟩ := hbeside.arrivals
  refine ⟨u, honward.trans honward', ⟨?_, hqueue, hidle'⟩, hbeside.files.trans hfiles, records,
    htold, ?_⟩
  · rw [hbeside.carried, hcarried]
  · rw [hu, harrivals]

theorem poller_onward {l : Arrivals.Label} {arrivals : Arrivals.State} (hl : ofPoller l = true)
    (hwhole : wholeListing s.arrivals l = true) (hcarried : s.carried = none)
    (hcaught : Caught dir s (.poller l)) (h : Arrivals.step dir s.arrivals l = some arrivals) :
    Onward dir s (s.polled l arrivals) := by
  apply Reaches.one (a := .poller l) ?_ ⟨rfl, hcaught⟩
  rw [step, hl, hwhole, hcarried, h]
  rfl

theorem empty_list (h : Clear s) (hp : s.arrivals.phase = .between) :
    ∃ t, Onward dir s t ∧ Clear t ∧ t.files = s.files ∧ t.arrivals.phase = .between ∧
      t.arrivals.poller.filePaths = [] ∧ ∃ records, told dir records = [] ∧
        t.arrivals.pending = s.arrivals.pending ++ records := by
  induction hn : s.arrivals.poller.filePaths.length generalizing s with
  | zero =>
      exact ⟨s, Reaches.refl _ _ _, h, rfl, hp, List.length_eq_zero_iff.mp hn, [], rfl,
        (List.append_nil _).symm⟩
  | succ n ih =>
      obtain ⟨hf, -⟩ | ⟨rest, path, hf, ht⟩ := takeBack_cases s.arrivals.poller
      · rw [hf] at hn
        cases hn
      · have hstep : Arrivals.step dir s.arrivals .poll =
            some (s.arrivals.return (⟨path⟩, { s.arrivals.poller with filePaths := rest })) := by
          simp [Arrivals.step, hp, hf, ht]
        have honward := @poller_onward dir s .poll _ rfl rfl h.carried trivial hstep
        obtain ⟨t, honward', hclear, hfiles, records, htold, ht⟩ :=
          @clear_up dir (s.polled .poll
            (s.arrivals.return (⟨path⟩, { s.arrivals.poller with filePaths := rest }))) h.idle
        have hrest : rest.length = n := by simpa [hf] using hn
        obtain ⟨u, honward'', hclear', hfiles', hphase, hempty, records', htold', hpending⟩ :=
          @ih t hclear (by rw [ht]; rfl) (by rw [ht]; exact hrest)
        refine ⟨u, honward.trans (honward'.trans honward''), hclear', hfiles'.trans hfiles, hphase,
          hempty, records ++ records', ?_, ?_⟩
        · rw [told_append, htold, htold']
          rfl
        · rw [hpending, ht, ← List.append_assoc]
          rfl

theorem nothing_returned (s : Arrivals.State) :
    ((s.returned.drop s.returned.length).head? : Option Str) = none := by
  rw [List.drop_length]
  rfl

theorem begin_read (h : Clear s) (hp : s.arrivals.phase = .between)
    (hf : s.arrivals.poller.filePaths = []) :
    ∃ t, Onward dir s t ∧ Clear t ∧ t.files = s.files ∧ t.arrivals.phase = .reading ∧
      t.arrivals.poller.filePaths = [] ∧ t.arrivals.pending = s.arrivals.pending := by
  have hpoll : Arrivals.step dir s.arrivals .poll = some { s.arrivals with
      phase := if s.arrivals.poller.watching then .reading else .initialising } := by
    simp [Arrivals.step, hp, hf]
  have honward := @poller_onward dir s .poll _ rfl rfl h.carried trivial hpoll
  have hcarried := nothing_returned s.arrivals
  cases hw : s.arrivals.poller.watching with
  | true =>
      refine ⟨_, honward, ⟨hcarried, h.queue, h.idle⟩, rfl, ?_, hf, rfl⟩
      simp [State.polled, hw]
  | false =>
      rw [hw] at honward
      have hwatch : Arrivals.step dir { s.arrivals with phase := .initialising } .watch =
          some { s.arrivals with phase := .reading, poller := s.arrivals.poller.initDirWatch } := rfl
      have honward' := @poller_onward dir (s.polled .poll { s.arrivals with phase := .initialising })
        .watch _ rfl rfl hcarried trivial hwatch
      exact ⟨_, honward.trans honward', ⟨hcarried, h.queue, h.idle⟩, rfl, rfl, hf, rfl⟩

theorem read_pending (h : Clear s) (hp : s.arrivals.phase = .reading) :
    ∃ t, Onward dir s t ∧ (∀ w, t.handle.workers w = .idle) ∧ t.handle.queue = [] ∧
      t.files = s.files ∧ t.arrivals.phase = .between ∧ t.arrivals.pending = [] ∧
      (s.arrivals.poller.dirToWatch = dir → s.arrivals.poller.filePaths = [] →
        told dir s.arrivals.pending = [] →
          t.carried = some [] ∧ t.arrivals.poller.filePaths = [] ∧
            t.arrivals.returned.getLast? = some []) := by
  have hread : Arrivals.step dir s.arrivals (.read s.arrivals.pending.length) =
      some (Arrivals.State.return { s.arrivals with pending := [] }
        (s.arrivals.poller.pollEvents s.arrivals.pending)) := by
    simp [Arrivals.step, hp]
  have honward := @poller_onward dir s (.read s.arrivals.pending.length) _ rfl rfl h.carried trivial
    hread
  refine ⟨_, honward, h.idle, h.queue, rfl, rfl, rfl, ?_⟩
  intro hd hf htold
  have hpaths : s.arrivals.pending.flatMap (addedPaths s.arrivals.poller.dirToWatch) = [] := by
    rw [hd]
    exact List.map_eq_nil_iff.mp htold
  have hpoll : s.arrivals.poller.pollEvents s.arrivals.pending = (⟨[]⟩, s.arrivals.poller) := by
    rw [DirectoryPoller.pollEvents, foldl_handleEvent, hpaths, List.append_nil]
    obtain ⟨-, ht⟩ | ⟨rest, path, hc, -⟩ := takeBack_cases s.arrivals.poller
    · exact ht
    · rw [hf] at hc
      simp at hc
  rw [hpoll]
  simp [State.polled, Arrivals.State.return, hf]

structure Bounded (s : State) : Prop where
  listing : ∀ present, s.arrivals.phase = .listing present → present ⊆ s.arrivals.names
  busy : ∃ n, ∀ w, n ≤ w → s.handle.workers w = .idle

theorem step_listing {s t : Arrivals.State} {l : Arrivals.Label} (hl : ofPoller l = true)
    (h : Arrivals.step dir s l = some t) {present : List FileName}
    (hp : t.phase = .listing present) : present ⊆ t.names := by
  cases l with
  | create | close => cases hl
  | openDirectory =>
      obtain ⟨-, he⟩ := Option.ite_none_right_eq_some.mp h
      cases he
      cases hp
      exact List.Subset.refl _
  | list seen =>
      obtain ⟨_, -, -, rfl⟩ := Arrivals.step_list h
      cases hp
  | poll =>
      obtain ⟨-, he⟩ := Option.ite_none_right_eq_some.mp h
      split_ifs at he <;> (cases he; cases hp)
  | watch =>
      obtain ⟨-, he⟩ := Option.ite_none_right_eq_some.mp h
      cases he
      cases hp
  | read n =>
      obtain ⟨-, he⟩ := Option.ite_none_right_eq_some.mp h
      cases he
      cases hp

theorem init_bounded (dir : Str) (d : Directory Str Str) : Bounded (init dir d) :=
  ⟨fun present h => (by cases h), 0, fun _ _ => rfl⟩

theorem step_bounded (dir : Str) (s : State) (l : Label) (t : State) (h : step dir s l = some t)
    (hs : Bounded s) : Bounded t := by
  cases l with
  | create name =>
      obtain ⟨arrivals, ha, rfl⟩ := Option.map_eq_some_iff.mp h
      obtain ⟨-, he⟩ := Option.ite_none_right_eq_some.mp ha
      rw [Arrivals.notify_eq] at he
      cases he
      refine ⟨?_, hs.busy⟩
      intro present hp
      exact List.Subset.trans (hs.listing present hp) (List.subset_cons_self _ _)
  | close name content =>
      obtain ⟨arrivals, ha, h⟩ := Option.bind_eq_some_iff.mp h
      obtain ⟨handle, hh, rfl⟩ := Option.map_eq_some_iff.mp h
      obtain ⟨-, he⟩ := Option.ite_none_right_eq_some.mp ha
      obtain ⟨directory, -, rfl⟩ := Option.map_eq_some_iff.mp hh
      rw [Arrivals.notify_eq] at he
      cases he
      exact ⟨hs.listing, hs.busy⟩
  | look name =>
      obtain ⟨-, he⟩ := Option.ite_none_right_eq_some.mp h
      cases he
      refine ⟨?_, hs.busy⟩
      rw [Arrivals.notify_eq]
      exact hs.listing
  | poller l =>
      obtain ⟨hguard, hmap⟩ := Option.ite_none_right_eq_some.mp h
      obtain ⟨arrivals, ha, rfl⟩ := Option.map_eq_some_iff.mp hmap
      simp only [Bool.and_eq_true] at hguard
      exact ⟨fun present hp => step_listing hguard.1.1 ha hp, hs.busy⟩
  | enqueue =>
      obtain ⟨path, -, rfl⟩ := Option.map_eq_some_iff.mp h
      rw [State.handOver]
      split_ifs <;> exact ⟨hs.listing, hs.busy⟩
  | worker w a =>
      obtain ⟨handle, hh, rfl⟩ := Option.map_eq_some_iff.mp h
      refine ⟨?_, ?_⟩
      · rw [foldl_notify]
        exact hs.listing
      · obtain ⟨n, hn⟩ := hs.busy
        refine ⟨max n (w + 1), ?_⟩
        intro v hv
        have hworked := Handle.workerStep_worked hh
        refine (Handle.worked_others hworked v (by omega)).trans (hn v (by omega))

theorem finish_listing (h : Clear s) (hwriting : s.arrivals.writing = [])
    (harrived : ∀ name ∈ s.arrivals.arrived, name ∈ s.arrivals.names) {present : List FileName}
    (hp : s.arrivals.phase = .listing present) (hpresent : present ⊆ s.arrivals.names) :
    ∃ t, Onward dir s t ∧ (∀ w, t.handle.workers w = .idle) ∧ t.files = s.files ∧
      t.arrivals.phase = .between := by
  have hstep : Arrivals.step dir s.arrivals (.list s.arrivals.names) = some { s.arrivals with
      phase := .between, poller := .construct dir (s.arrivals.names.map FileName.text) } := by
    simp [Arrivals.step, hp, hpresent]
  have hwhole : wholeListing s.arrivals (.list s.arrivals.names) = true := by
    simp [wholeListing, hwriting]
  exact ⟨_, poller_onward rfl hwhole h.carried harrived hstep, h.idle, rfl, rfl⟩

theorem finish_read (h : Clear s) (hp : s.arrivals.phase = .reading) :
    ∃ t, Onward dir s t ∧ (∀ w, t.handle.workers w = .idle) ∧ t.files = s.files ∧
      t.arrivals.phase = .between := by
  obtain ⟨t, honward, hidle, -, hfiles, hphase, -⟩ := @read_pending dir s h hp
  exact ⟨t, honward, hidle, hfiles, hphase⟩

theorem reach_loop (h : Clear s) (hs : Held dir s) (hb : Bounded s)
    (hwriting : s.arrivals.writing = []) :
    ∃ t, Onward dir s t ∧ (∀ w, t.handle.workers w = .idle) ∧ t.files = s.files ∧
      t.arrivals.phase = .between := by
  have harrived : ∀ name ∈ s.arrivals.arrived, name ∈ s.arrivals.names :=
    fun name hm => (hs.kept.sane.arrived name hm).1
  cases hp : s.arrivals.phase with
  | starting =>
      have hopen : Arrivals.step dir s.arrivals .openDirectory =
          some { s.arrivals with phase := .listing s.arrivals.names } := by
        simp [Arrivals.step, hp]
      have honward := @poller_onward dir s .openDirectory _ rfl rfl h.carried trivial hopen
      obtain ⟨t, honward', ht⟩ := @finish_listing dir (s.polled .openDirectory
        { s.arrivals with phase := .listing s.arrivals.names })
        ⟨nothing_returned s.arrivals, h.queue, h.idle⟩ hwriting harrived _ rfl
        (List.Subset.refl _)
      exact ⟨t, honward.trans honward', ht⟩
  | listing present => exact finish_listing h hwriting harrived hp (hb.listing present hp)
  | between => exact ⟨s, Reaches.refl _ _ _, h.idle, rfl, hp⟩
  | initialising =>
      have hwatch : Arrivals.step dir s.arrivals .watch = some { s.arrivals with
          phase := .reading, poller := s.arrivals.poller.initDirWatch } := by
        simp [Arrivals.step, hp]
      have honward := @poller_onward dir s .watch _ rfl rfl h.carried trivial hwatch
      obtain ⟨t, honward', ht⟩ := @finish_read dir (s.polled .watch { s.arrivals with
        phase := .reading, poller := s.arrivals.poller.initDirWatch })
        ⟨nothing_returned s.arrivals, h.queue, h.idle⟩ rfl
      exact ⟨t, honward.trans honward', ht⟩
  | reading => exact finish_read h hp

theorem onward_held (h : Onward dir s t) (hs : Held dir s) : Held dir t :=
  h.invariant (fun s l t hstep hl hs => step_held dir s l t hstep hl.2 hs) hs

theorem onward_bounded (h : Onward dir s t) (hs : Bounded s) : Bounded t :=
  h.invariant (fun s l t hstep _ hs => step_bounded dir s l t hstep hs) hs

/-- One round through all that the poller is told brings it to where only the
program's own records are left. -/
theorem read_off (h : Clear s) (hp : s.arrivals.phase = .between) :
    ∃ t, Onward dir s t ∧ Clear t ∧ t.files = s.files ∧ t.arrivals.phase = .between ∧
      told dir t.arrivals.pending = [] := by
  obtain ⟨t₁, h₁, hc₁, hf₁, hp₁, hpaths, -⟩ := @empty_list dir s h hp
  obtain ⟨t₂, h₂, hc₂, hf₂, hp₂, -⟩ := @begin_read dir t₁ hc₁ hp₁ hpaths
  obtain ⟨t₃, h₃, hidle, -, hf₃, hp₃, hpending, -⟩ := @read_pending dir t₂ hc₂ hp₂
  obtain ⟨t, h₄, hc, hf₄, records, htold, ht⟩ := @clear_up dir t₃ hidle
  refine ⟨t, h₁.trans (h₂.trans (h₃.trans h₄)), hc, ?_, ?_, ?_⟩
  · rw [hf₄, hf₃, hf₂, hf₁]
  · rw [ht]
    exact hp₃
  · rw [ht, hpending]
    exact htold

theorem last_poll (h : Clear s) (hs : Held dir s) (hp : s.arrivals.phase = .between)
    (htold : told dir s.arrivals.pending = []) :
    ∃ t, Onward dir s t ∧ AtRest t ∧ t.files = s.files := by
  obtain ⟨t₁, h₁, hc₁, hf₁, hp₁, hpaths₁, records, hrecords, hpending₁⟩ := @empty_list dir s h hp
  obtain ⟨t₂, h₂, hc₂, hf₂, hp₂, hpaths₂, hpending₂⟩ := @begin_read dir t₁ hc₁ hp₁ hpaths₁
  obtain ⟨t₃, h₃, hidle, hqueue, hf₃, -, hpending, hempty⟩ := @read_pending dir t₂ hc₂ hp₂
  have hdir : t₂.arrivals.poller.dirToWatch = dir :=
    (onward_held (h₁.trans h₂) hs).kept.sane.dirToWatch
  have htold₂ : told dir t₂.arrivals.pending = [] := by
    rw [hpending₂, hpending₁, told_append, htold, hrecords]
    rfl
  obtain ⟨hcarried, hpaths, hlast⟩ := hempty hdir hpaths₂ htold₂
  have hstep : step dir t₃ .enqueue = some { t₃ with carried := none } := by
    rw [step, hcarried]
    rfl
  refine ⟨{ t₃ with carried := none },
    h₁.trans (h₂.trans (h₃.trans (Reaches.one hstep ⟨rfl, trivial⟩))), ?_, ?_⟩
  · exact ⟨⟨hpaths, hpending, hlast⟩, rfl, hqueue, hidle⟩
  · exact hf₃.trans (hf₂.trans hf₁)

theorem rest_reached (hs : Held dir s) (hb : Bounded s) (hwriting : s.arrivals.writing = []) :
    ∃ t, Onward dir s t ∧ AtRest t ∧ t.files = s.files := by
  obtain ⟨n, hn⟩ := hb.busy
  obtain ⟨t₁, h₁, hbeside, hidle₁⟩ := @settle_all dir s n hn
  obtain ⟨t₂, h₂, hc₂, hf₂, _, -, ht₂⟩ := @clear_up dir t₁ hidle₁
  obtain ⟨_, -, ht₁⟩ := hbeside.arrivals
  have hwriting₂ : t₂.arrivals.writing = [] := by
    rw [ht₂, ht₁]
    exact hwriting
  have h₁₂ := h₁.trans h₂
  obtain ⟨t₃, h₃, hidle₃, hf₃, hp₃⟩ :=
    reach_loop hc₂ (onward_held h₁₂ hs) (onward_bounded h₁₂ hb) hwriting₂
  obtain ⟨t₄, h₄, hc₄, hf₄, _, -, ht₄⟩ := @clear_up dir t₃ hidle₃
  obtain ⟨t₅, h₅, hc₅, hf₅, hp₅, htold⟩ := @read_off dir t₄ hc₄ (by rw [ht₄]; exact hp₃)
  have h₁₅ := h₁₂.trans (h₃.trans (h₄.trans h₅))
  obtain ⟨t, h₆, hrest, hf⟩ := last_poll hc₅ (onward_held h₁₅ hs) hp₅ htold
  refine ⟨t, h₁₅.trans h₆, hrest, ?_⟩
  rw [hf, hf₅, hf₄, hf₃, hf₂, hbeside.files]

variable {d : Directory Str Str} {tr : List Label}

end Flycatcher.ComesToRest
