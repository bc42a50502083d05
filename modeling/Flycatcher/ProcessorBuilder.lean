import Flycatcher.PublishFrames

namespace Flycatcher.ProcessorBuilder

open Library.TextStreams CsvRow Publish PublishFrames

abbrev Pointer := BitVec 64

def nullptr : Pointer := 0

/-- What lies at the addresses that are looked up. At an address that no such
object has, it is whatever the bytes there read as. -/
structure Memory where
  schemas : Pointer → SchemaMap
  maxAge : Pointer → Str × Int

structure CsvProcessor where
  name : Str
  sigChannel : Pointer
  transformers : Pointer
  activeProcessors : Pointer
  logCv : Pointer
  logCvMutex : Pointer
  kafkaProducer : Pointer
  schemas : Pointer
  maxAgeConfig : Pointer

structure CsvProcessorBuilder where
  name : Str
  transformers : Pointer
  activeProcessors : Pointer
  logCv : Pointer
  logCvMutex : Pointer
  kafkaProducer : Pointer
  sigChannel : Pointer
  schemas : Pointer
  maxAge : Pointer

/-- The constructor, with what the memory of the object had before. The members
without an initializer keep it. -/
def CsvProcessor.construct (raw : CsvProcessor) (name : Str) (sigChannel : Pointer) : CsvProcessor :=
  { raw with name, sigChannel }

def CsvProcessorBuilder.construct (raw : CsvProcessorBuilder) (name : Str) : CsvProcessorBuilder :=
  { raw with
    name
    transformers := nullptr
    activeProcessors := nullptr
    logCv := nullptr
    logCvMutex := nullptr
    sigChannel := nullptr }

namespace CsvProcessorBuilder

def withTransformers (builder : CsvProcessorBuilder) (t : Pointer) : CsvProcessorBuilder :=
  { builder with transformers := t }

def withActiveProcessorsCounter (builder : CsvProcessorBuilder) (c : Pointer) : CsvProcessorBuilder :=
  { builder with activeProcessors := c }

def withLoggingCv (builder : CsvProcessorBuilder) (cv : Pointer) : CsvProcessorBuilder :=
  { builder with logCv := cv }

def withLoggingMutex (builder : CsvProcessorBuilder) (m : Pointer) : CsvProcessorBuilder :=
  { builder with logCvMutex := m }

def withKafkaProducer (builder : CsvProcessorBuilder) (kp : Pointer) : CsvProcessorBuilder :=
  { builder with kafkaProducer := kp }

def withSchemas (builder : CsvProcessorBuilder) (s : Pointer) : CsvProcessorBuilder :=
  { builder with schemas := s }

def withSigChannel (builder : CsvProcessorBuilder) (sc : Pointer) : CsvProcessorBuilder :=
  { builder with sigChannel := sc }

def withDropMaxAge (builder : CsvProcessorBuilder) (p : Pointer) : CsvProcessorBuilder :=
  { builder with maxAge := p }

def build (memory : Memory) (raw : CsvProcessor) (builder : CsvProcessorBuilder) :
    Except String CsvProcessor :=
  if builder.transformers = nullptr then .error "No transformers provided"
  else if builder.activeProcessors = nullptr then .error "No active processors counter provided"
  else if builder.logCv = nullptr then .error "No log cv provided"
  else if builder.logCvMutex = nullptr then .error "No log cv mutex provided"
  else if builder.kafkaProducer = nullptr then .error "No kafka producer provided"
  else if (memory.schemas builder.schemas).isEmpty then .error "No schemas provided"
  else if builder.sigChannel = nullptr then .error "No signal channel provided"
  else
    let processor := { CsvProcessor.construct raw builder.name builder.sigChannel with
      transformers := builder.transformers
      activeProcessors := builder.activeProcessors
      logCv := builder.logCv
      logCvMutex := builder.logCvMutex
      kafkaProducer := builder.kafkaProducer
      schemas := builder.schemas }
    .ok (if builder.maxAge ≠ nullptr then { processor with maxAgeConfig := builder.maxAge }
      else processor)

end CsvProcessorBuilder

structure MainObjects where
  activeProcessors : Pointer
  logCv : Pointer
  logCvMutex : Pointer
  transformers : Pointer
  kafkaProducer : Pointer
  schemas : Pointer
  sigChannel : Pointer
  ma : Pointer

def buildProcessor (memory : Memory) (objects : MainObjects) (hasMaxAge : Bool) (name : Str)
    (rawBuilder : CsvProcessorBuilder) (raw : CsvProcessor) : Except String CsvProcessor :=
  let builder := (CsvProcessorBuilder.construct rawBuilder name)
    |>.withActiveProcessorsCounter objects.activeProcessors
    |>.withLoggingCv objects.logCv
    |>.withLoggingMutex objects.logCvMutex
    |>.withTransformers objects.transformers
    |>.withKafkaProducer objects.kafkaProducer
    |>.withSchemas objects.schemas
    |>.withSigChannel objects.sigChannel
  let builder := if hasMaxAge then builder.withDropMaxAge objects.ma else builder
  builder.build memory raw

/-- The implicit copy constructor, which ProcessorBridge and the Connector's
vector go through. -/
def CsvProcessor.clone (processor : CsvProcessor) : CsvProcessor := processor

def CsvProcessor.ageRule (memory : Memory) (processor : CsvProcessor) : Option (Str × Int) :=
  if processor.maxAgeConfig ≠ nullptr then some (memory.maxAge processor.maxAgeConfig) else none

def CsvProcessor.publish (memory : Memory) (libraries : Libraries) (answers : Answers)
    (processor : CsvProcessor) (row : CSVRow) (oldCount : Nat) : Exit × PublishState :=
  Publish.publish libraries (processor.ageRule memory) answers (memory.schemas processor.schemas)
    row oldCount

def AgeFree (rawBuilder : CsvProcessorBuilder) (raw : CsvProcessor) : Prop :=
  ∀ memory objects name processor,
    buildProcessor memory objects false name rawBuilder raw = .ok processor →
    ∀ libraries answers row oldCount,
      processor.clone.publish memory libraries answers row oldCount =
        Publish.publish libraries none answers (memory.schemas objects.schemas) row oldCount

theorem build_ok {memory : Memory} {raw processor : CsvProcessor} {builder : CsvProcessorBuilder}
    (h : builder.build memory raw = .ok processor) :
    processor.schemas = builder.schemas ∧ processor.maxAgeConfig =
      if builder.maxAge ≠ nullptr then builder.maxAge else raw.maxAgeConfig := by
  rw [CsvProcessorBuilder.build] at h
  split_ifs at h with _ _ _ _ _ _ _ hmaxAge
  · cases h
    exact ⟨rfl, (if_pos hmaxAge).symm⟩
  · cases h
    exact ⟨rfl, (if_neg hmaxAge).symm⟩

theorem buildProcessor_ok {memory : Memory} {objects : MainObjects} {name : Str}
    {rawBuilder : CsvProcessorBuilder} {raw processor : CsvProcessor}
    (h : buildProcessor memory objects false name rawBuilder raw = .ok processor) :
    processor.schemas = objects.schemas ∧ processor.maxAgeConfig =
      if rawBuilder.maxAge ≠ nullptr then rawBuilder.maxAge else raw.maxAgeConfig :=
  build_ok h

def ruledMemory : Memory :=
  ⟨fun _ => .ofList [(['t'], stringTopic ['t'] ['c'] 5)], fun _ => (['c'], 0)⟩

def liveObjects : MainObjects := ⟨1, 1, 1, 1, 1, 1, 1, 1⟩

theorem buildProcessor_live (rawBuilder : CsvProcessorBuilder) (raw : CsvProcessor) :
    ∃ processor, buildProcessor ruledMemory liveObjects false [] rawBuilder raw = .ok processor :=
  ⟨_, rfl⟩

/-- The cell of the rule's column is empty, so the age branch throws. -/
theorem ruled_publish_ne :
    Publish.publish recordingLibraries (some (['c'], 0)) acceptingAnswers
        (.ofList [(['t'], stringTopic ['t'] ['c'] 5)]) .empty 0 ≠
      Publish.publish recordingLibraries none acceptingAnswers
        (.ofList [(['t'], stringTopic ['t'] ['c'] 5)]) .empty 0 := by
  intro h
  exact absurd (congrArg Prod.fst h) (by decide)

/-- No row is dropped for its age exactly when the two members that nobody sets
happen to be null. -/
theorem ageFree_iff {rawBuilder : CsvProcessorBuilder} {raw : CsvProcessor} :
    AgeFree rawBuilder raw ↔ rawBuilder.maxAge = nullptr ∧ raw.maxAgeConfig = nullptr := by
  have hnull : (if rawBuilder.maxAge ≠ nullptr then rawBuilder.maxAge else raw.maxAgeConfig) =
      nullptr ↔ rawBuilder.maxAge = nullptr ∧ raw.maxAgeConfig = nullptr := by
    by_cases hmaxAge : rawBuilder.maxAge = nullptr
    · simp [hmaxAge]
    · simp [hmaxAge]
  rw [← hnull]
  constructor
  · intro h
    by_contra hne
    obtain ⟨processor, hbuild⟩ := buildProcessor_live rawBuilder raw
    obtain ⟨hschemas, hmaxAge⟩ := buildProcessor_ok hbuild
    have hfree := h ruledMemory liveObjects [] processor hbuild recordingLibraries acceptingAnswers
      .empty 0
    rw [CsvProcessor.publish, CsvProcessor.clone, CsvProcessor.ageRule, hmaxAge, if_pos hne] at hfree
    exact ruled_publish_ne hfree
  · intro h memory objects name processor hbuild libraries answers row oldCount
    obtain ⟨hschemas, hmaxAge⟩ := buildProcessor_ok hbuild
    rw [CsvProcessor.publish, CsvProcessor.clone, CsvProcessor.ageRule, hmaxAge, h, hschemas]
    rfl

def zeroedBuilder : CsvProcessorBuilder := ⟨[], 0, 0, 0, 0, 0, 0, 0, 0⟩

def zeroed : CsvProcessor := ⟨[], 0, 0, 0, 0, 0, 0, 0, 0⟩

/-- With another value where the builder's m_max_age comes to lie, the message of
the row is not published. -/
theorem leftover_rule_applies : ∃ processor processor',
    buildProcessor ruledMemory liveObjects false [] zeroedBuilder zeroed = .ok processor ∧
    buildProcessor ruledMemory liveObjects false [] { zeroedBuilder with maxAge := 1 } zeroed =
      .ok processor' ∧
    (processor.clone.publish ruledMemory recordingLibraries acceptingAnswers .empty 0).2.calls.length =
      1 ∧
    (processor'.clone.publish ruledMemory recordingLibraries acceptingAnswers .empty 0).2.calls = [] :=
  ⟨_, _, rfl, rfl, by decide, by decide⟩

end Flycatcher.ProcessorBuilder
