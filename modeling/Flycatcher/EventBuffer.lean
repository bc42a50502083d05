import Flycatcher.Library.Bytes
import Flycatcher.Polling
import Mathlib.Algebra.Ring.Int.Defs
import Mathlib.Algebra.Ring.Nat
import Mathlib.Data.List.Basic

namespace Flycatcher.EventBuffer

open Library.TextStreams Library.Bytes FileNames Polling

def eventSize : Nat := 16

def bufLen : Nat := 1024 * (eventSize + 16)

def toStr (bytes : List UInt8) : Str := bytes.map fun b => Char.ofNat b.toNat

structure Header where
  mask : BitVec 32
  len : BitVec 32

def readHeader (buffer : List UInt8) (i : Nat) : Option Header := do
  let mask ← readWord (buffer.drop (i + 4))
  let len ← readWord (buffer.drop (i + 12))
  return ⟨mask, len⟩

def readName (buffer : List UInt8) (i : Nat) : Option Str :=
  (cString (buffer.drop (i + eventSize))).map toStr

/-- One turn of the loop, apart from the index. The log messages of the other
branches read the name, too. -/
def handleHeader (dir : Str) (buffer : List UInt8) (i : Nat) (header : Header)
    (filePaths : List Str) : Option (List Str) :=
  if header.len ≠ 0 then
    if header.mask &&& inCreate ≠ 0 then (readName buffer i).map fun _ => filePaths
    else if header.mask &&& inClose ≠ 0 then do
      let name ← readName buffer i
      if header.mask &&& inIsdir ≠ 0 then return filePaths
      else
        let fileName := eventPath dir name
        return if shouldAddFile fileName false then filePaths ++ [fileName] else filePaths
    else some filePaths
  else some filePaths

/-- The index is an int, the record lengths are not. -/
def nextIndex (i : Int) (len : BitVec 32) : Int := (i + eventSize + len.toNat).bmod (2 ^ 32)

structure Scan where
  i : Int
  filePaths : List Str
  visited : List Nat

/-- There is no result when a turn reads out of the buffer. -/
def scanFrom (dir : Str) (buffer : List UInt8) (length : Int) : Nat → Scan → Option Scan
  | 0, _ => none
  | n + 1, s =>
      if s.i < length then
        if s.i < 0 then none
        else do
          let header ← readHeader buffer s.i.toNat
          let filePaths ← handleHeader dir buffer s.i.toNat header s.filePaths
          scanFrom dir buffer length n ⟨nextIndex s.i header.len, filePaths, s.visited ++ [s.i.toNat]⟩
      else some s

/-- A turn that stays in the buffer goes on by the size of a header at least,
which bounds the turns. -/
def scanBuffer (dir : Str) (buffer : List UInt8) (length : Int) (filePaths : List Str) :
    Option Scan :=
  scanFrom dir buffer length (length.toNat + 1) ⟨0, filePaths, []⟩

def pollBuffer (poller : DirectoryPoller) (buffer : List UInt8) (length : Int) :
    Option (PollResult × DirectoryPoller) := do
  let s ← scanBuffer poller.dirToWatch buffer length poller.filePaths
  return { poller with filePaths := s.filePaths }.takeBack

def poll (poller : DirectoryPoller) (buffer : List UInt8) (length : Int) :
    Option (PollResult × DirectoryPoller) :=
  if !poller.filePaths.isEmpty then some poller.takeBack
  else
    let poller := if !poller.watching then poller.initDirWatch else poller
    pollBuffer poller buffer length

/-- A record of the kernel. A name has a NUL behind it. -/
structure Record where
  wd : BitVec 32
  mask : BitVec 32
  cookie : BitVec 32
  name : List UInt8
  padding : Nat
  noNul : 0 ∉ name
  terminated : name ≠ [] → 0 < padding

namespace Record

def len (r : Record) : Nat := r.name.length + r.padding

def layout (r : Record) : List UInt8 :=
  memory r.wd ++ memory r.mask ++ memory r.cookie ++ memory (.ofNat 32 r.len) ++
    (r.name ++ List.replicate r.padding 0)

def event (r : Record) : InotifyEvent := ⟨r.mask, r.len, toStr r.name⟩

end Record

def layouts (records : List Record) : List UInt8 := records.flatMap Record.layout

def offsets (i : Nat) : List Record → List Nat
  | [] => []
  | r :: records => i :: offsets (i + eventSize + r.len) records

def inCloseWrite : BitVec 32 := 0x00000008

def inCloseNowrite : BitVec 32 := 0x00000010

def addedPath (dir : Str) (r : Record) : Option Str :=
  let path := dir ++ ['/'] ++ toStr r.name
  if r.len > 0 ∧ r.mask &&& inCreate = 0 ∧
      (r.mask &&& inCloseWrite ≠ 0 ∨ r.mask &&& inCloseNowrite ≠ 0) ∧ r.mask &&& inIsdir = 0 ∧
      ¬inprogressMark <:+ path ∧ ¬doneMark <:+ path then some path
  else none

theorem layout_length (r : Record) : r.layout.length = eventSize + r.len := by
  simp only [Record.layout, Record.len, eventSize, List.length_append, memory_length,
    List.length_replicate]

theorem readHeader_layout (before rest : List UInt8) (r : Record) :
    readHeader (before ++ (r.layout ++ rest)) before.length = some ⟨r.mask, .ofNat 32 r.len⟩ := by
  have hmask : (before ++ (r.layout ++ rest)).drop (before.length + 4) =
      memory r.mask ++ (memory r.cookie ++ memory (.ofNat 32 r.len) ++
        (r.name ++ List.replicate r.padding 0) ++ rest) := by
    rw [List.drop_length_add_append, Record.layout]
    rfl
  have hlen : (before ++ (r.layout ++ rest)).drop (before.length + 12) =
      memory (.ofNat 32 r.len) ++ (r.name ++ List.replicate r.padding 0 ++ rest) := by
    rw [List.drop_length_add_append, Record.layout]
    rfl
  rw [readHeader, hmask, hlen, readWord_memory, readWord_memory]
  rfl

theorem readName_layout (before rest : List UInt8) {r : Record} (h : r.len ≠ 0) :
    readName (before ++ (r.layout ++ rest)) before.length = some (toStr r.name) := by
  have hpadding : 0 < r.padding := by
    by_cases hn : r.name = []
    · rw [Record.len, hn, List.length_nil] at h
      omega
    · exact r.terminated hn
  obtain ⟨k, hk⟩ := Nat.exists_eq_succ_of_ne_zero (Nat.ne_of_gt hpadding)
  have hname : (before ++ (r.layout ++ rest)).drop (before.length + eventSize) =
      r.name ++ 0 :: (List.replicate k 0 ++ rest) := by
    rw [List.drop_length_add_append, Record.layout, hk, List.replicate_succ]
    have hheader : (memory r.wd ++ memory r.mask ++ memory r.cookie ++
        memory (.ofNat 32 r.len)).length = eventSize := rfl
    rw [List.append_assoc (_ ++ memory _), List.drop_left' hheader]
    simp
  rw [readName, hname, cString_padded r.noNul]
  rfl

theorem handleHeader_layout (dir : Str) (before rest : List UInt8) {r : Record}
    (hlen : r.len < 2 ^ 32) (filePaths : List Str) :
    handleHeader dir (before ++ (r.layout ++ rest)) before.length ⟨r.mask, .ofNat 32 r.len⟩
        filePaths =
      some (handleEvent dir filePaths r.event) := by
  have hzero : BitVec.ofNat 32 r.len ≠ 0 ↔ r.len ≠ 0 := by
    rw [ne_eq, ne_eq, ← BitVec.toNat_inj, BitVec.toNat_ofNat, Nat.mod_eq_of_lt hlen]
    rfl
  rw [handleHeader, handleEvent, Record.event]
  by_cases hl : r.len ≠ 0
  · rw [if_pos (hzero.mpr hl), if_pos hl]
    simp only [readName_layout before rest hl, Option.map_some, Option.bind_eq_bind,
      Option.bind_some]
    split_ifs <;> rfl
  · rw [if_neg (mt hzero.mp hl), if_neg hl]

theorem layouts_cons (r : Record) (records : List Record) :
    layouts (r :: records) = r.layout ++ layouts records := List.flatMap_cons ..

theorem scanFrom_layout (dir : Str) (before rest : List UInt8) (r : Record) {length : Int}
    (hlength : before.length + eventSize + r.len ≤ length) (hint : length < 2 ^ 31) (n : Nat)
    (filePaths : List Str) (visited : List Nat) :
    scanFrom dir (before ++ (r.layout ++ rest)) length (n + 1) ⟨before.length, filePaths, visited⟩ =
      scanFrom dir (before ++ (r.layout ++ rest)) length n
        ⟨(before ++ r.layout).length, handleEvent dir filePaths r.event, visited ++ [before.length]⟩ := by
  have hsize : eventSize = 16 := rfl
  have hlen : r.len < 2 ^ 32 := by omega
  have hnext : nextIndex before.length (.ofNat 32 r.len) = (before ++ r.layout).length := by
    rw [nextIndex, BitVec.toNat_ofNat, Nat.mod_eq_of_lt hlen, List.length_append, layout_length,
      Int.bmod_eq_of_le_mul_two (by omega) (by omega)]
    omega
  rw [scanFrom]
  simp only
  rw [if_pos (by omega), if_neg (by omega), Int.toNat_natCast, readHeader_layout]
  simp only [Option.bind_eq_bind, Option.bind_some, handleHeader_layout dir before rest hlen, hnext]

/-- From the beginning of a record on, the loop goes through the rest of them
and ends at the length. -/
theorem scanFrom_layouts (dir : Str) (before rest : List UInt8) (records : List Record)
    {length : Int} (hlength : length = (before ++ layouts records).length) (hint : length < 2 ^ 31) {n : Nat}
    (hn : records.length < n) (filePaths : List Str) (visited : List Nat) :
    scanFrom dir (before ++ (layouts records ++ rest)) length n ⟨before.length, filePaths, visited⟩ =
      some ⟨length, (records.map Record.event).foldl (handleEvent dir) filePaths,
        visited ++ offsets before.length records⟩ := by
  induction records generalizing before n filePaths visited with
  | nil =>
      cases n with
      | zero => cases hn
      | succ n =>
          have hend : length = before.length := by simpa [layouts] using hlength
          rw [scanFrom]
          simp only [hend, Int.lt_irrefl, if_false, List.map_nil, List.foldl_nil, offsets,
            List.append_nil]
  | cons r records ih =>
      rw [layouts_cons, ← List.append_assoc] at hlength
      cases n with
      | zero => cases hn
      | succ n =>
          have hle : before.length + eventSize + r.len ≤ length := by
            rw [hlength, List.length_append, List.length_append, layout_length]
            omega
          have ih := ih (before ++ r.layout) hlength (Nat.lt_of_succ_lt_succ hn)
            (handleEvent dir filePaths r.event) (visited ++ [before.length])
          have hnext : (before ++ r.layout).length = before.length + eventSize + r.len := by
            rw [List.length_append, layout_length, Nat.add_assoc]
          rw [layouts_cons, List.append_assoc r.layout, scanFrom_layout dir before _ r hle hint,
            ← List.append_assoc before, ih, hnext, List.append_assoc visited]
          rfl

theorem inClose_iff (mask : BitVec 32) :
    mask &&& inClose ≠ 0 ↔ mask &&& inCloseWrite ≠ 0 ∨ mask &&& inCloseNowrite ≠ 0 := by
  have hor : mask &&& inClose = (mask &&& inCloseWrite) ||| (mask &&& inCloseNowrite) :=
    BitVec.and_or_distrib_left ..
  rw [hor, ← not_and_or]
  exact not_congr BitVec.or_eq_zero_iff

theorem addedPath_eq (dir : Str) (r : Record) :
    addedPath dir r =
      if r.len ≠ 0 ∧ ¬r.mask &&& inCreate ≠ 0 ∧ r.mask &&& inClose ≠ 0 ∧ ¬r.mask &&& inIsdir ≠ 0 ∧
        shouldAddFile (eventPath dir (toStr r.name)) false = true
      then some (eventPath dir (toStr r.name)) else none := by
  simp only [inClose_iff, shouldAddFile_running, ne_eq, not_not, ← Nat.pos_iff_ne_zero]
  rfl

theorem addedPaths_event (dir : Str) (r : Record) :
    addedPaths dir r.event = (addedPath dir r).toList := by
  rw [addedPath_eq, Record.event, addedPaths, handleEvent]
  simp only [List.nil_append]
  by_cases hl : r.len ≠ 0
  · by_cases hc : r.mask &&& inCreate ≠ 0
    · rw [if_pos hl, if_pos hc, if_neg (by tauto), Option.toList_none]
    · by_cases hcl : r.mask &&& inClose ≠ 0
      · by_cases hd : r.mask &&& inIsdir ≠ 0
        · rw [if_pos hl, if_neg hc, if_pos hcl, if_pos hd, if_neg (by tauto), Option.toList_none]
        · by_cases hs : shouldAddFile (eventPath dir (toStr r.name)) false = true
          · rw [if_pos hl, if_neg hc, if_pos hcl, if_neg hd, if_pos hs, if_pos (by tauto),
              Option.toList_some]
          · rw [if_pos hl, if_neg hc, if_pos hcl, if_neg hd, if_neg hs, if_neg (by tauto),
              Option.toList_none]
      · rw [if_pos hl, if_neg hc, if_neg hcl, if_neg (by tauto), Option.toList_none]
  · rw [if_neg hl, if_neg (by tauto), Option.toList_none]

theorem added_events (dir : Str) (filePaths : List Str) (records : List Record) :
    (records.map Record.event).foldl (handleEvent dir) filePaths =
      filePaths ++ records.filterMap (addedPath dir) := by
  rw [foldl_handleEvent, List.flatMap_map, List.filterMap_eq_flatMap_toList]
  simp only [addedPaths_event]

/-- The loop goes over the records in the buffer one by one, whatever lies
behind them. -/
theorem scanBuffer_layouts (dir : Str) (records : List Record) (rest : List UInt8)
    (hlength : (layouts records).length ≤ bufLen) (filePaths : List Str) :
    scanBuffer dir (layouts records ++ rest) (layouts records).length filePaths =
      some ⟨(layouts records).length, filePaths ++ records.filterMap (addedPath dir),
        offsets 0 records⟩ := by
  have hbound : bufLen < 2 ^ 31 := by decide
  have hcount (rs : List Record) : rs.length ≤ (layouts rs).length := by
    induction rs with
    | nil => exact Nat.le_refl _
    | cons r rs ih =>
        rw [layouts_cons, List.length_append, layout_length, List.length_cons, eventSize]
        omega
  have h := @scanFrom_layouts dir [] rest records (layouts records).length rfl (by omega)
    ((layouts records).length + 1) (Nat.lt_succ_of_le (hcount records)) filePaths []
  rw [scanBuffer, Int.toNat_natCast]
  rw [added_events] at h
  exact h

theorem pollBuffer_layouts (poller : DirectoryPoller) (records : List Record) (rest : List UInt8)
    (hlength : (layouts records).length ≤ bufLen) :
    pollBuffer poller (layouts records ++ rest) (layouts records).length = some
      { poller with filePaths :=
          poller.filePaths ++ records.filterMap (addedPath poller.dirToWatch) }.takeBack := by
  rw [pollBuffer, scanBuffer_layouts poller.dirToWatch records rest hlength]
  rfl

/-- Where the bytes of a read are the records that the kernel has laid out, poll
on the bytes is poll on the records. -/
theorem poll_layouts (poller : DirectoryPoller) (records : List Record) (rest : List UInt8)
    (hlength : (layouts records).length ≤ bufLen) :
    poll poller (layouts records ++ rest) (layouts records).length =
      some (poller.poll (records.map Record.event)) := by
  rw [poll, DirectoryPoller.poll, pollBuffer_layouts _ _ _ hlength, DirectoryPoller.pollEvents,
    added_events]
  split_ifs <;> rfl

theorem poll_empty {poller : DirectoryPoller} (h : poller.filePaths = []) (buffer : List UInt8)
    (length : Int) :
    poll poller buffer length = pollBuffer { poller with watching := true } buffer length := by
  obtain ⟨dir, filePaths, watching, lastFiles⟩ := poller
  obtain rfl : filePaths = [] := h
  cases watching <;> rfl

/-- Each of the records is visited once and in order, their paths are added
behind the ones that are there, and of all of them the last one is taken. -/
theorem poll_decodes (poller : DirectoryPoller) (records : List Record) (rest : List UInt8)
    (hlength : (layouts records).length ≤ bufLen) :
    ∃ s, scanBuffer poller.dirToWatch (layouts records ++ rest) (layouts records).length
        poller.filePaths = some s ∧
      s.i = (layouts records).length ∧ s.visited = offsets 0 records ∧
      s.filePaths = poller.filePaths ++ records.filterMap (addedPath poller.dirToWatch) ∧
      (s.filePaths = [] ∧ pollBuffer poller (layouts records ++ rest) (layouts records).length =
          some (⟨[]⟩, poller) ∨
        ∃ before path, s.filePaths = before ++ [path] ∧
          pollBuffer poller (layouts records ++ rest) (layouts records).length =
            some (⟨path⟩, { poller with filePaths := before })) ∧
      (poller.filePaths = [] → poll poller (layouts records ++ rest) (layouts records).length =
        pollBuffer { poller with watching := true } (layouts records ++ rest)
          (layouts records).length) := by
  refine ⟨_, scanBuffer_layouts poller.dirToWatch records rest hlength poller.filePaths, rfl, rfl,
    rfl, ?_, ?_⟩
  · rw [pollBuffer_layouts poller records rest hlength]
    rcases takeBack_cases { poller with
      filePaths := poller.filePaths ++ records.filterMap (addedPath poller.dirToWatch) } with
      ⟨hn, ht⟩ | ⟨before, path, hc, ht⟩
    · obtain hn : poller.filePaths ++ records.filterMap (addedPath poller.dirToWatch) = [] := hn
      obtain ⟨hempty, -⟩ := List.append_eq_nil_iff.mp hn
      have hself : { poller with filePaths := [] } = poller := by rw [← hempty]
      rw [ht, hn, hself]
      exact .inl ⟨rfl, rfl⟩
    · exact .inr ⟨before, path, hc, by rw [ht]⟩
  · exact fun hempty => poll_empty hempty _ _

def closedRecord : Record :=
  ⟨1, 0x00000008, 0, [97], 15, by decide, fun _ => by decide⟩

theorem poll_decodes_closed :
    ∃ s, scanBuffer ['d'] (layouts [closedRecord] ++ []) (layouts [closedRecord]).length [['p']] =
        some s ∧
      s.i = 32 ∧ s.visited = [0] ∧ s.filePaths = [['p'], "d/a".toList] := by
  obtain ⟨s, hs, hi, hvisited, hpaths, -⟩ :=
    poll_decodes ⟨['d'], [['p']], true, ∅⟩ [closedRecord] [] (by decide)
  exact ⟨s, hs, hi, hvisited, hpaths.trans (by decide)⟩

end Flycatcher.EventBuffer
