import Flycatcher.Configuration
import Flycatcher.TransformerChain

namespace Flycatcher.Startup

open Library.TextStreams Library.Reports Library.YamlNodes Flycatcher.Configuration Publish
open SchemaAssembly TransformerChain Transformers

def known (type : Str) : Bool :=
  type = voidType ∨ type = unuuidType ∨ type = mapType ∨ type = appendType ∨ type = prependType ∨
    type = setType

section Entries

variable {ν : Type} (yaml : Nodes ν)

def entryOf (d : ν) : TransformEntry where
  column := textAt yaml d "column".toList
  type := textAt yaml d "type".toList
  lookup := (itemsAt yaml d "lookup".toList).map fun it => (textOf yaml it.first, textOf yaml it.second)
  fromColumn := textAt yaml d "from_column".toList
  value := textAt yaml d "value".toList

def entries (config : ν) : List TransformEntry :=
  if hasAt yaml config transformsKey then
    (itemsAt yaml config transformsKey).map fun it => entryOf yaml it.element
  else []

end Entries

variable {ν : Type} {yaml : Nodes ν}

def unknownOf (entry : TransformEntry) : List Str :=
  match entry.type with
  | some type => if known type then [] else [unknownType type]
  | none => []

/-- An entry without a class drops the chain before it, as an object that is not a
decorator does. -/
def kept (steps : List Step) (entry : TransformEntry) : List Step :=
  match entry.step? with
  | some step => (if Step.isBase step then [] else steps) ++ [step]
  | none => []

theorem getInstance_isNull (type column : Str) (wrapped : Transformer) :
    (getInstance type column wrapped).isNull = !known type := by
  rw [getInstance, known]
  split_ifs with hvoid hunuuid hmap happend hprepend hset
  · simp [hvoid, createBase, Transformer.isNull]
  · simp [hunuuid, createDecorator, Transformer.isNull]
  · simp [hmap, createDecorator, Transformer.isNull]
  · simp [happend, createDecorator, Transformer.isNull]
  · simp [hprepend, createDecorator, Transformer.isNull]
  · simp [hset, createDecorator, Transformer.isNull]
  · simp [hvoid, hunuuid, hmap, happend, hprepend, hset, Transformer.isNull]

theorem guarded_bind {α β : Type} {a : Code α} {x : α} (ha : a.Has Guarded)
    (hx : a.result = .ok x) (f : α → Code β) :
    alarms (a >>= f).reports = alarms (f x).reports := by
  have hq := ha.2
  rw [hx] at hq
  rw [bind_ok hx, alarms_append, hq rfl, List.nil_append]

theorem addPair_ok_iff {pairs pairs' : List (Str × Str)} {it : Position ν} :
    (addPair yaml pairs it).result = .ok pairs' ↔
      (Readable yaml it.first ∧ Readable yaml it.second) ∧
        pairs' = pairs ++ [(textOf yaml it.first, textOf yaml it.second)] := by
  simp only [addPair, result_bind_ok, as_ok_iff]
  constructor
  · rintro ⟨key, ⟨hkey, rfl⟩, value, ⟨hvalue, rfl⟩, h⟩
    exact ⟨⟨hkey, hvalue⟩, (Except.ok.inj h).symm⟩
  · rintro ⟨⟨hkey, hvalue⟩, rfl⟩
    exact ⟨_, ⟨hkey, rfl⟩, _, ⟨hvalue, rfl⟩, rfl⟩

theorem readLookup_ok {d : ν} {pairs : List (Str × Str)}
    (h : (readLookup yaml d).result = .ok pairs) :
    pairs = (itemsAt yaml d "lookup".toList).map fun it =>
      (textOf yaml it.first, textOf yaml it.second) := by
  obtain ⟨lookup, hlookup, h⟩ := result_bind_ok.mp h
  have hloop : (∀ it ∈ yaml.iterate lookup, Readable yaml it.first ∧ Readable yaml it.second) ∧
      pairs = (yaml.iterate lookup).foldl
        (fun pairs it => pairs ++ [(textOf yaml it.first, textOf yaml it.second)]) [] := by
    rw [← foldlM_ok_iff]
    · exact h
    · intro pairs it pairs'
      exact addPair_ok_iff
  rw [itemsAt_eq (lookUp_ok_iff.mp hlookup), hloop.2, foldl_append_singleton]
  rfl

theorem readLookup_guarded (d : ν) : (readLookup yaml d).Has Guarded := by
  rw [readLookup]
  apply has_bind guarded_composes (lookUp_guarded _ _)
  intro lookup _
  apply has_foldlM guarded_composes
  intro pairs it
  apply has_bind guarded_composes (as_guarded _)
  exact fun _ _ => has_bind guarded_composes (as_guarded _) fun _ _ => has_pure guarded_composes _

theorem readText_ok {d : ν} {key text : Str} (h : (readText yaml d key).result = .ok text) :
    textAt yaml d key = some text := by
  obtain ⟨node, hnode, h⟩ := result_bind_ok.mp h
  rw [textAt, lookUp_ok_iff.mp hnode]
  exact orThrow_ok_iff.mp h

theorem readText_guarded (d : ν) (key : Str) : (readText yaml d key).Has Guarded :=
  has_bind guarded_composes (lookUp_guarded _ _) fun _ _ => as_guarded _

theorem configureFrom_guarded (d : ν) (type : Str) (ptr : Transformer) :
    (configureFrom yaml d type ptr).Has Guarded := by
  have htext (key : Str) (f : Str → Transformer) :
      (do return f (← readText yaml d key) : Code Transformer).Has Guarded :=
    has_bind guarded_composes (readText_guarded _ _) fun _ _ => has_pure guarded_composes _
  rw [configureFrom]
  split
  · exact has_bind guarded_composes (readLookup_guarded _) fun _ _ => has_pure guarded_composes _
  · split
    · exact htext _ _
    · split
      · exact htext _ _
      · split
        · exact htext _ _
        · exact has_pure guarded_composes _

theorem configureFrom_ok {d : ν} {type : Str} {ptr ptr' : Transformer}
    (h : (configureFrom yaml d type ptr).result = .ok ptr') :
    Transformers.configure (entryOf yaml d) type ptr = some ptr' := by
  have htext {key : Str} {f : Str → Transformer}
      (h : (do return f (← readText yaml d key) : Code Transformer).result = .ok ptr') :
      (textAt yaml d key).map f = some ptr' := by
    obtain ⟨text, htext, h⟩ := result_bind_ok.mp h
    rw [readText_ok htext]
    exact congrArg some (Except.ok.inj h)
  rw [configureFrom] at h
  rw [Transformers.configure]
  split_ifs at h ⊢ with hmap happend hprepend hset
  · obtain ⟨pairs, hpairs, h⟩ := result_bind_ok.mp h
    rw [readLookup_ok hpairs] at h
    cases h
    rfl
  · exact htext h
  · exact htext h
  · exact htext h
  · cases h
    rfl

theorem step?_of_configure {entry : TransformEntry} {column type : Str} {ptr ptr' : Transformer}
    (hcolumn : entry.column = some column) (htype : entry.type = some type) (hknown : known type)
    (h : Transformers.configure entry type ptr = some ptr') : ∃ step, entry.step? = some step := by
  rw [Transformers.configure] at h
  rw [known, decide_eq_true_iff] at hknown
  simp only [TransformEntry.step?, hcolumn, htype, Option.bind_eq_bind, Option.bind_some]
  split_ifs at h ⊢ with hmap hvoid hunuuid happend hprepend hset
  all_goals first
    | exact ⟨_, rfl⟩
    | (obtain ⟨text, htext, -⟩ := Option.map_eq_some_iff.mp h
       rw [htext]
       exact ⟨_, rfl⟩)
    | simp_all

theorem step?_unknown {entry : TransformEntry} {column type : Str}
    (hcolumn : entry.column = some column) (htype : entry.type = some type)
    (hknown : known type = false) : entry.step? = none := by
  rw [known, decide_eq_false_iff_not] at hknown
  simp only [not_or] at hknown
  obtain ⟨hvoid, hunuuid, hmap, happend, hprepend, hset⟩ := hknown
  simp only [TransformEntry.step?, hcolumn, htype, Option.bind_eq_bind, Option.bind_some,
    if_neg hvoid, if_neg hunuuid, if_neg hmap, if_neg happend, if_neg hprepend, if_neg hset]

theorem addTransformer_ok {lastPtr ptr : Transformer} {it : Position ν}
    (h : (addTransformer yaml lastPtr it).result = .ok ptr) :
    ptr.steps = kept lastPtr.steps (entryOf yaml it.element) ∧
      alarms (addTransformer yaml lastPtr it).reports =
        alarmsOf (unknownOf (entryOf yaml it.element)) := by
  obtain ⟨column, hcolumn, h⟩ := result_bind_ok.mp h
  obtain ⟨type, htype, h⟩ := result_bind_ok.mp h
  rw [addTransformer, guarded_bind (readText_guarded _ _) hcolumn,
    guarded_bind (readText_guarded _ _) htype]
  have hc : (entryOf yaml it.element).column = some column := readText_ok hcolumn
  have ht : (entryOf yaml it.element).type = some type := readText_ok htype
  have hu : unknownOf (entryOf yaml it.element) = if known type then [] else [unknownType type] := by
    rw [unknownOf, ht]
  rw [hu]
  cases hknown : known type with
  | false =>
      have hnull : (getInstance type column lastPtr).isNull = true := by
        rw [getInstance_isNull, hknown]
        rfl
      simp only [hnull, if_true] at h ⊢
      cases h
      rw [kept, step?_unknown hc ht hknown]
      exact ⟨rfl, rfl⟩
  | true =>
      have hnull : (getInstance type column lastPtr).isNull = false := by
        rw [getInstance_isNull, hknown]
        rfl
      simp only [hnull, Bool.false_eq_true, if_false] at h ⊢
      obtain ⟨ptr', hptr', h⟩ := result_bind_ok.mp h
      rw [guarded_bind (configureFrom_guarded _ _ _) hptr']
      cases h
      have hconfigure := configureFrom_ok hptr'
      obtain ⟨step, hstep⟩ := step?_of_configure hc ht hknown hconfigure
      refine ⟨?_, rfl⟩
      have hentry := addEntry_eq hstep ⟨lastPtr, 0⟩
      rw [addEntry, hc, ht] at hentry
      simp only [Option.bind_eq_bind, Option.bind_some, hnull, Bool.false_eq_true, if_false,
        hconfigure] at hentry
      cases hentry
      rw [steps_wrap, kept, hstep]

theorem addTransformers_ok {its : List (Position ν)} {lastPtr ptr : Transformer}
    (h : (its.foldlM (addTransformer yaml) lastPtr).result = .ok ptr) :
    ptr.steps = (its.map fun it => entryOf yaml it.element).foldl kept lastPtr.steps := by
  induction its generalizing lastPtr with
  | nil =>
      cases h
      rfl
  | cons it its ih =>
      rw [List.foldlM_cons] at h
      obtain ⟨next, hnext, h⟩ := result_bind_ok.mp h
      rw [ih h, (addTransformer_ok hnext).1]
      rfl

theorem transformersOf_ok {config : ν} {chain : List Transformer}
    (h : (transformersOf yaml config).result = .ok chain) :
    chain.flatMap Transformer.steps = (entries yaml config).foldl kept [] ∧
      alarms (transformersOf yaml config).reports =
        alarmsOf ((entries yaml config).flatMap unknownOf) := by
  obtain ⟨node, hnode, h⟩ := result_bind_ok.mp h
  have hfound := lookUp_ok_iff.mp hnode
  rw [transformersOf, guarded_bind (lookUp_guarded _ _) hnode, entries, hasAt_eq hfound,
    itemsAt_eq hfound]
  split at h
  · next hdefined =>
      rw [if_pos hdefined, if_pos hdefined, guarded_bind (lookUp_guarded _ _) hnode]
      obtain ⟨again, hagain, h⟩ := result_bind_ok.mp h
      cases hnode.symm.trans hagain
      obtain ⟨lastPtr, hlast, h⟩ := result_bind_ok.mp h
      have hsteps := addTransformers_ok hlast
      have halarms : alarms ((yaml.iterate node).foldlM (addTransformer yaml) .nullptr).reports =
          (yaml.iterate node).flatMap fun it => alarmsOf (unknownOf (entryOf yaml it.element)) := by
        apply loop_reports _ hlast
        intro lastPtr it ptr hturn
        exact (addTransformer_ok hturn).2
      constructor
      · rw [show [] = Transformer.nullptr.steps from rfl, ← hsteps, ← Except.ok.inj h]
        cases lastPtr <;> simp [Transformer.isNull, Transformer.steps]
      · rw [bind_ok hlast, alarms_append, List.flatMap_map, alarmsOf, List.flatMap_assoc]
        exact (List.append_nil _).trans halarms
  · next hdefined =>
      rw [if_neg hdefined, if_neg hdefined]
      cases h
      exact ⟨rfl, rfl⟩

theorem addTransformer_interrupts (lastPtr : Transformer) (it : Position ν) :
    (addTransformer yaml lastPtr it).Has Interrupts := by
  have hplain {α : Type} {a : Code α} (h : a.Has Guarded) : a.Has Interrupts :=
    h.mono fun _ _ h => h.1
  rw [addTransformer]
  apply has_bind interrupts_composes (hplain (readText_guarded _ _))
  intro column _
  apply has_bind interrupts_composes (hplain (readText_guarded _ _))
  intro type _
  dsimp only
  split
  · exact ⟨[unknownType type], rfl, fun h => (by cases h)⟩
  · apply has_bind interrupts_composes (hplain (configureFrom_guarded _ _ _))
    intro _ _
    exact has_bind interrupts_composes (hplain (info_guarded _)) fun _ _ =>
      has_pure interrupts_composes _

theorem transformersOf_interrupts (config : ν) : (transformersOf yaml config).Has Interrupts := by
  have hlook : (lookUp yaml config transformsKey).Has Interrupts :=
    (lookUp_guarded _ _).mono fun _ _ h => h.1
  rw [transformersOf]
  apply has_bind interrupts_composes hlook
  intro _ _
  split
  · apply has_bind interrupts_composes hlook
    intro _ _
    apply has_bind interrupts_composes
    · exact has_foldlM interrupts_composes addTransformer_interrupts _ _
    · exact fun _ _ => has_pure interrupts_composes _
  · exact has_pure interrupts_composes _

theorem schemaConfigs_guarded (config : ν) : (schemaConfigs yaml config).Has Guarded := by
  rw [schemaConfigs]
  apply has_bind guarded_composes (configForKey_guarded _ _)
  intro kafkaConfig _
  apply has_bind guarded_composes (guarded_plain rfl fun h => (by cases h))
  intro _ _
  apply has_bind guarded_composes (readTopics_guarded _)
  intro s _
  split
  · exact giveUp_guarded _
  · exact has_pure guarded_composes _

theorem schemas_guarded (avro : AvroSchemas) (get : Str → Option Int32) (config : ν) :
    (schemas yaml avro get config).Has Guarded := by
  rw [Configuration.schemas]
  apply has_bind guarded_composes (schemaConfigs_guarded _)
  intro configs _
  split
  · exact has_pure guarded_composes _
  · exact guarded_plain rfl fun h => (by cases h)

theorem maxAge_guarded {config : ν} (h : (hasKey yaml config maxAgeKey).result = .ok true) :
    (maxAge yaml config).Has Guarded := by
  rw [maxAge]
  apply has_bind guarded_composes (hasKey_guarded _ _)
  intro present hpresent
  rw [h] at hpresent
  cases hpresent
  apply has_bind guarded_composes (configForKey_guarded _ _)
  intro maxAgeConfig _
  split
  · exact has_pure guarded_composes _
  · exact giveUp_guarded _

theorem maxAgeSetting_guarded (config : ν) : (maxAgeSetting yaml config).Has Guarded := by
  rw [maxAgeSetting]
  apply has_bind guarded_composes (hasKey_guarded _ _)
  intro present hpresent
  split
  · next hp =>
      subst hp
      exact has_bind guarded_composes (maxAge_guarded hpresent) fun _ _ => has_pure guarded_composes _
  · exact has_pure guarded_composes _

theorem configure_interrupts (avro : AvroSchemas) (get : Str → Option Int32) (config : ν) :
    (Configuration.configure yaml avro get config).Has Interrupts := by
  have hplain {α : Type} {a : Code α} (h : a.Has Guarded) : a.Has Interrupts :=
    h.mono fun _ _ h => h.1
  rw [Configuration.configure]
  apply has_bind interrupts_composes (hplain (schemas_guarded _ _ _))
  intro schemas _
  apply has_bind interrupts_composes (hplain (configForKey_guarded _ _))
  intro kafka _
  apply has_bind interrupts_composes (transformersOf_interrupts _)
  intro transformers _
  exact has_bind interrupts_composes (hplain (maxAgeSetting_guarded _)) fun _ _ =>
    has_pure interrupts_composes _

theorem alarmsOf_injective {ms ns : List Str} (h : alarmsOf ms = alarmsOf ns) : ms = ns := by
  induction ms generalizing ns with
  | nil =>
      cases ns with
      | nil => rfl
      | cons n ns => cases h
  | cons m ms ih =>
      cases ns with
      | nil => cases h
      | cons n ns =>
          rw [alarmsOf, alarmsOf, List.flatMap_cons, List.flatMap_cons] at h
          injection h with hm h
          injection h with _ h
          injection hm with _ hm
          rw [hm, ih h]

structure Accepted (yaml : Nodes ν) (avro : AvroSchemas) (get : Str → Option Int32) (config : ν)
    (settings : Settings) : Prop where
  schemas : (schemas yaml avro get config).result = .ok settings.schemas
  kafka : (kafka yaml config).result = .ok settings.kafka
  transformers : (transformersOf yaml config).result = .ok settings.transformers
  maxAge : (maxAgeSetting yaml config).result = .ok settings.maxAge

theorem configure_ok {avro : AvroSchemas} {get : Str → Option Int32} {config : ν}
    {settings : Settings} (h : (Configuration.configure yaml avro get config).result = .ok settings) :
    Accepted yaml avro get config settings ∧
      alarms (Configuration.configure yaml avro get config).reports =
        alarms (transformersOf yaml config).reports := by
  obtain ⟨schemas, hschemas, h⟩ := result_bind_ok.mp h
  obtain ⟨kafka, hkafka, h⟩ := result_bind_ok.mp h
  obtain ⟨transformers, htransformers, h⟩ := result_bind_ok.mp h
  obtain ⟨maxAge, hmaxAge, h⟩ := result_bind_ok.mp h
  cases h
  refine ⟨⟨hschemas, hkafka, htransformers, hmaxAge⟩, ?_⟩
  have hguarded : (Configuration.kafka yaml config).Has Guarded := configForKey_guarded _ _
  rw [Configuration.configure, guarded_bind (schemas_guarded _ _ _) hschemas,
    guarded_bind hguarded hkafka, bind_ok htransformers, alarms_append,
    guarded_bind (maxAgeSetting_guarded _) hmaxAge]
  exact List.append_nil _

def Assembled (avro : AvroSchemas) (get : Str → Option Int32) (topic : Str)
    (config c : SchemaConfig) : Prop :=
  ∃ schema, assembleSchema avro config = .ok schema ∧
    c = { config with schema, schemaId := SchemaIds.fetchValueSchemaId get topic }

theorem addSchema_ok {avro : AvroSchemas} {get : Str → Option Int32} {m m' : SchemaMap}
    {entry : Str × SchemaConfig} (h : SchemaIds.addSchema avro get m entry = .ok m') :
    ∃ c, Assembled avro get entry.1 entry.2 c ∧ m' = m.insert entry.1 c := by
  rw [SchemaIds.addSchema] at h
  cases hschema : assembleSchema avro entry.2 with
  | error e =>
      rw [hschema] at h
      cases h
  | ok schema =>
      rw [hschema] at h
      cases h
      exact ⟨_, ⟨schema, hschema, rfl⟩, rfl⟩

theorem addSchemas_get {avro : AvroSchemas} {get : Str → Option Int32} {m m' : SchemaMap}
    {entries : List (Str × SchemaConfig)} (hdistinct : entries.Pairwise fun a b => a.1 ≠ b.1)
    (h : entries.foldlM (SchemaIds.addSchema avro get) m = .ok m') (topic : Str)
    (c : SchemaConfig) :
    m'[topic]? = some c ↔
      (∃ config, (topic, config) ∈ entries ∧ Assembled avro get topic config c) ∨
        (∀ config, (topic, config) ∉ entries) ∧ m[topic]? = some c := by
  induction entries generalizing m with
  | nil =>
      cases h
      simp
  | cons entry entries ih =>
      obtain ⟨t, config⟩ := entry
      obtain ⟨hentry, hdistinct⟩ := List.pairwise_cons.mp hdistinct
      rw [List.foldlM_cons] at h
      cases hadd : SchemaIds.addSchema avro get m (t, config) with
      | error e =>
          rw [hadd] at h
          cases h
      | ok next =>
          rw [hadd] at h
          obtain ⟨c', hc', rfl⟩ := addSchema_ok hadd
          rw [ih hdistinct h]
          by_cases ht : t = topic
          · subst ht
            have hno : ∀ other, (t, other) ∉ entries := fun other hm =>
              hentry (t, other) hm rfl
            simp only [hno, false_and, exists_false, false_or, not_false_eq_true, implies_true,
              true_and, Std.TreeMap.getElem?_insert_self, List.mem_cons, Prod.mk.injEq, or_false]
            constructor
            · intro hsome
              cases hsome
              exact .inl ⟨config, rfl, hc'⟩
            · rintro (⟨other, rfl, schema, hschema, rfl⟩ | ⟨hnone, -⟩)
              · obtain ⟨schema', hschema', rfl⟩ := hc'
                rw [hschema] at hschema'
                cases hschema'
                rfl
              · exact absurd rfl (hnone config)
          · have hcmp : compare t topic ≠ .eq := fun he =>
              ht (Std.LawfulEqCmp.compare_eq_iff_eq.mp he)
            simp [Std.TreeMap.getElem?_insert, hcmp, Ne.symm ht]

theorem schemas_get {avro : AvroSchemas} {get : Str → Option Int32} {configs m : SchemaMap}
    (h : SchemaIds.schemas avro get configs = .ok m) (topic : Str) (c : SchemaConfig) :
    m[topic]? = some c ↔
      ∃ config, configs[topic]? = some config ∧ Assembled avro get topic config c := by
  rw [addSchemas_get (toList_distinct configs) h]
  simp [Std.TreeMap.mem_toList_iff_getElem?_eq_some]

def ageOf (yaml : Nodes ν) (config : ν) : Option (Str × Int) :=
  if typeAt yaml config maxAgeKey = some .undefined then none
  else some ((sectionMap yaml config maxAgeKey).getD "column".toList [],
    atoi ((sectionMap yaml config maxAgeKey).getD "days".toList []))

theorem maxAge_ok {config : ν} {age : Str × Int} (h : (maxAge yaml config).result = .ok age) :
    age = ((sectionMap yaml config maxAgeKey).getD "column".toList [],
      atoi ((sectionMap yaml config maxAgeKey).getD "days".toList [])) := by
  obtain ⟨present, -, h⟩ := result_bind_ok.mp h
  cases present with
  | false => cases h
  | true =>
      obtain ⟨maxAgeConfig, hconfig, h⟩ := result_bind_ok.mp h
      obtain ⟨-, rfl⟩ := configForKey_ok_iff.mp hconfig
      split at h
      · next column days hcolumn hdays =>
          rw [Std.TreeMap.getD_eq_getD_getElem?, Std.TreeMap.getD_eq_getD_getElem?, hcolumn, hdays]
          exact (Except.ok.inj h).symm
      · cases h

theorem maxAgeSetting_ok {config : ν} {age : Option (Str × Int)}
    (h : (maxAgeSetting yaml config).result = .ok age) : age = ageOf yaml config := by
  obtain ⟨present, hpresent, h⟩ := result_bind_ok.mp h
  obtain ⟨type, htype, rfl⟩ := hasKey_ok_iff.mp hpresent
  rw [ageOf, htype]
  by_cases hundefined : type = .undefined
  · subst hundefined
    exact (Except.ok.inj h).symm
  · rw [decide_eq_true hundefined] at h
    obtain ⟨read, hread, h⟩ := result_bind_ok.mp h
    rw [if_neg (by simpa using hundefined), ← maxAge_ok hread]
    exact (Except.ok.inj h).symm

theorem defectsOf_eq_nil {it : Position ν} (h : defectsOf yaml it = []) :
    (topicOf yaml it).2.1 ≠ [] := by
  rw [defectsOf, topicOf] at h
  rw [topicOf]
  split at h
  · next hmap =>
      rw [if_pos hmap]
      intro hcolumns
      have hcolumns : columnsOf yaml it.second = [] := hcolumns
      have hnone := (List.append_eq_nil_iff.mp h).2
      rw [if_pos hcolumns] at hnone
      cases hnone
  · cases h

theorem defects_eq_nil {config : ν} (h : defects yaml config = []) {it : Position ν}
    (hit : it ∈ topics yaml config) : defectsOf yaml it = [] := by
  rw [defects] at h
  split at h
  · cases h
  · exact List.flatMap_eq_nil_iff.mp h it hit

theorem schemas_ok {avro : AvroSchemas} {get : Str → Option Int32} {config : ν} {m : SchemaMap}
    (h : (Configuration.schemas yaml avro get config).result = .ok m) :
    defects yaml config = [] ∧ SchemaIds.schemas avro get (topicsOf yaml config) = .ok m := by
  obtain ⟨configs, hconfigs, hassembled⟩ := result_bind_ok.mp h
  obtain ⟨-, -, hdefects, rfl⟩ := schemaConfigs_ok_iff.mp hconfigs
  refine ⟨hdefects, ?_⟩
  cases hresult : SchemaIds.schemas avro get (topicsOf yaml config) with
  | error e =>
      rw [hresult] at hassembled
      cases hassembled
  | ok schemas =>
      rw [hresult] at hassembled
      exact congrArg _ (Except.ok.inj hassembled)

/-- What a start that gets through hands over: each topic as its first entry
has it, with columns, its schema and the id of its subject; a chain that does to a
row what the entries do in their order, from the last one on that drops
the others; and the age limit. -/
theorem startup_hands_over {avro : AvroSchemas} {get : Str → Option Int32} {config : ν}
    {settings : Settings} (h : (Configuration.configure yaml avro get config).result = .ok settings) :
    (∀ topic c, settings.schemas[topic]? = some c ↔
      ∃ it, (topics yaml config).find? (fun it => textOf yaml it.first = topic) = some it ∧
        Assembled avro get topic (configOf yaml config it) c) ∧
    (∀ (topic : Str) (c : SchemaConfig), settings.schemas[topic]? = some c →
      c.name = topic ∧ c.columns ≠ []) ∧
    (∀ row, operate settings.transformers row = runSteps ((entries yaml config).foldl kept []) row) ∧
    settings.kafka = sectionMap yaml config kafkaKey ∧ settings.maxAge = ageOf yaml config := by
  obtain ⟨haccepted, -⟩ := configure_ok h
  obtain ⟨hdefects, hschemas⟩ := schemas_ok haccepted.schemas
  have hget : ∀ topic c, settings.schemas[topic]? = some c ↔
      ∃ it, (topics yaml config).find? (fun it => textOf yaml it.first = topic) = some it ∧
        Assembled avro get topic (configOf yaml config it) c := by
    intro topic c
    rw [schemas_get hschemas]
    simp [topicsOf_get]
  refine ⟨hget, ?_, ?_, (configForKey_ok_iff.mp haccepted.kafka).2,
    maxAgeSetting_ok haccepted.maxAge⟩
  · intro topic c hc
    obtain ⟨it, hit, schema, -, rfl⟩ := (hget topic c).mp hc
    have hname : textOf yaml it.first = topic := by simpa using List.find?_some hit
    refine ⟨hname, ?_⟩
    exact defectsOf_eq_nil (defects_eq_nil hdefects (List.mem_of_find?_eq_some hit))
  · intro row
    rw [operate_eq_runSteps, (transformersOf_ok haccepted.transformers).1]

def entry (key : String) (value : Document) : Document × Document := (.scalar key.toList, value)

def document : Document :=
  .map [entry "kafka" (.map [entry "client.id" (.scalar ['c'])]), entry "column_map" (.map []),
    entry "column_type_transforms" (.map []),
    entry "type_map" (.map [entry "t" (.map
      [entry "key_column" (.scalar ['a']), entry "columns" (.sequence [.scalar ['a']])])]),
    entry "transforms" (.sequence
      [.map [entry "column" (.scalar ['a']), entry "type" (.scalar setType),
          entry "value" (.scalar ['x'])],
        .map [entry "column" (.scalar ['a']), entry "type" (.scalar ['u'])],
        .map [entry "column" (.scalar ['a']), entry "type" (.scalar appendType),
          entry "from_column" (.scalar ['b'])]])]

theorem startup_hands_over_appended : ∃ settings,
    (Configuration.configure documents plainSchemas (fun _ => some 7) (some document)).result =
        .ok settings ∧
      ∀ row, operate settings.transformers row = runSteps [.decorate (.append ['b']) ['a']] row :=
  ⟨_, rfl, (@startup_hands_over _ documents plainSchemas (fun _ => some 7) (some document) _ rfl).2.2.1⟩

end Flycatcher.Startup
