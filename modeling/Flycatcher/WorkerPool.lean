import Flycatcher.ProcessorBuilder
import Mathlib.Algebra.Ring.Int.Defs
import Mathlib.Algebra.Ring.Nat

namespace Flycatcher.WorkerPool

open Library.TextStreams ProcessorBuilder

def stdMax (a b : UInt32) : UInt32 := if a < b then b else a

/-- From the value of std::thread::hardware_concurrency(). The subtraction is
one of unsigned ints. -/
def processorThreadCount (hardwareConcurrency : UInt32) : UInt32 :=
  stdMax 1 (hardwareConcurrency - 5)

def processorName (i : Nat) : Str := "CsvProcessor ".toList ++ (toString i).toList

section Loop

variable (memory : Memory) (objects : MainObjects) (hasMaxAge : Bool)
variable (rawBuilder : Nat → CsvProcessorBuilder) (raw : Nat → CsvProcessor)

def buildProcessors : List Nat → Except String (List CsvProcessor)
  | [] => .ok []
  | i :: turns => do
      let processor ← buildProcessor memory objects hasMaxAge (processorName i) (rawBuilder i) (raw i)
      let processors ← buildProcessors turns
      return processor :: processors

structure Connector where
  processors : List CsvProcessor

def Connector.construct (processors : List CsvProcessor) : Connector :=
  ⟨processors.map CsvProcessor.clone⟩

def buildConnector (hardwareConcurrency : UInt32) : Except String Connector := do
  let turns := List.range' 1 (processorThreadCount hardwareConcurrency).toNat
  let processors ← buildProcessors memory objects hasMaxAge rawBuilder raw turns
  return Connector.construct processors

end Loop

def PoolSized (hardwareConcurrency : UInt32) : Prop :=
  ∀ memory objects hasMaxAge rawBuilder raw connector,
    buildConnector memory objects hasMaxAge rawBuilder raw hardwareConcurrency = .ok connector →
    (connector.processors.length : Int) = max 1 ((hardwareConcurrency.toNat : Int) - 5) ∧
      connector.processors.length ≤ max 1 hardwareConcurrency.toNat

theorem processorThreadCount_toNat (h : UInt32) :
    (processorThreadCount h).toNat =
      if 5 ≤ h.toNat then max 1 (h.toNat - 5) else h.toNat + 2 ^ 32 - 5 := by
  have hlt := h.toNat_lt
  have hsub : (h - 5).toNat = (2 ^ 32 - 5 + h.toNat) % 2 ^ 32 := by
    rw [UInt32.toNat_sub]
    rfl
  have hmax : (processorThreadCount h).toNat = max 1 (h - 5).toNat := by
    rw [processorThreadCount, stdMax]
    split_ifs with hc
    · exact (max_eq_right (Nat.le_of_lt (UInt32.lt_iff_toNat_lt.mp hc))).symm
    · exact (max_eq_left (Nat.le_of_not_lt fun hn => hc (UInt32.lt_iff_toNat_lt.mpr hn))).symm
  rw [hmax, hsub]
  split_ifs <;> omega

theorem buildProcessors_length {memory : Memory} {objects : MainObjects} {hasMaxAge : Bool}
    {rawBuilder : Nat → CsvProcessorBuilder} {raw : Nat → CsvProcessor} {turns : List Nat}
    {processors : List CsvProcessor}
    (h : buildProcessors memory objects hasMaxAge rawBuilder raw turns = .ok processors) :
    processors.length = turns.length := by
  induction turns generalizing processors with
  | nil =>
      cases h
      rfl
  | cons i turns ih =>
      rw [buildProcessors] at h
      cases hb : buildProcessor memory objects hasMaxAge (processorName i) (rawBuilder i) (raw i) with
      | error e =>
          rw [hb] at h
          cases h
      | ok processor =>
          cases hrest : buildProcessors memory objects hasMaxAge rawBuilder raw turns with
          | error e =>
              rw [hb, hrest] at h
              cases h
          | ok rest =>
              rw [hb, hrest] at h
              cases h
              simp [ih hrest]

theorem buildProcessors_live (rawBuilder : Nat → CsvProcessorBuilder) (raw : Nat → CsvProcessor)
    (turns : List Nat) : ∃ processors,
      buildProcessors ruledMemory liveObjects false rawBuilder raw turns = .ok processors := by
  induction turns with
  | nil => exact ⟨[], rfl⟩
  | cons i turns ih =>
      obtain ⟨processors, hrest⟩ := ih
      obtain ⟨processor, hb⟩ : ∃ processor, buildProcessor ruledMemory liveObjects false
          (processorName i) (rawBuilder i) (raw i) = .ok processor := ⟨_, rfl⟩
      exact ⟨processor :: processors, by rw [buildProcessors, hb, hrest]; rfl⟩

theorem buildConnector_length {memory : Memory} {objects : MainObjects} {hasMaxAge : Bool}
    {rawBuilder : Nat → CsvProcessorBuilder} {raw : Nat → CsvProcessor} {hc : UInt32}
    {connector : Connector}
    (h : buildConnector memory objects hasMaxAge rawBuilder raw hc = .ok connector) :
    connector.processors.length = (processorThreadCount hc).toNat := by
  rw [buildConnector] at h
  cases hb : buildProcessors memory objects hasMaxAge rawBuilder raw
    (List.range' 1 (processorThreadCount hc).toNat) with
  | error e =>
      simp only [hb] at h
      cases h
  | ok processors =>
      simp only [hb] at h
      cases h
      rw [Connector.construct, List.length_map, buildProcessors_length hb, List.length_range']

theorem buildConnector_live (rawBuilder : Nat → CsvProcessorBuilder) (raw : Nat → CsvProcessor)
    (hc : UInt32) : ∃ connector,
      buildConnector ruledMemory liveObjects false rawBuilder raw hc = .ok connector := by
  obtain ⟨processors, hb⟩ := buildProcessors_live rawBuilder raw
    (List.range' 1 (processorThreadCount hc).toNat)
  exact ⟨Connector.construct processors, by simp only [buildConnector, hb]; rfl⟩

theorem PoolSized.five_le {hc : UInt32} (h : PoolSized hc) : 5 ≤ hc.toNat := by
  have hcount := processorThreadCount_toNat hc
  have hlt := hc.toNat_lt
  obtain ⟨connector, hb⟩ := buildConnector_live (fun _ => zeroedBuilder) (fun _ => zeroed) hc
  obtain ⟨hlen, -⟩ := h _ _ _ _ _ connector hb
  rw [buildConnector_length hb, hcount] at hlen
  split_ifs at hlen <;> omega

/-- Below five cores the subtraction wraps. -/
theorem poolSized_iff (hc : UInt32) : PoolSized hc ↔ 5 ≤ hc.toNat := by
  constructor
  · exact PoolSized.five_le
  · intro h memory objects hasMaxAge rawBuilder raw connector hb
    rw [buildConnector_length hb, processorThreadCount_toNat, if_pos h]
    omega

/-- With four cores main sets out to build more than four billion processors. -/
theorem four_cores_unsized : ¬PoolSized 4 ∧ (processorThreadCount 4).toNat = 2 ^ 32 - 1 :=
  ⟨fun h => absurd h.five_le (by decide), by decide⟩

end Flycatcher.WorkerPool
