import Mathlib.Data.List.Basic
import Mathlib.Data.List.Nodup

namespace Library.Directories

variable {ν β : Type} [DecidableEq ν]

structure Directory (ν β : Type) where
  entries : List (ν × β)
  nodup : (entries.map Prod.fst).Nodup

namespace Directory

def names (d : Directory ν β) : List ν := d.entries.map Prod.fst

def contents (d : Directory ν β) : List β := d.entries.map Prod.snd

def find (d : Directory ν β) (name : ν) : Option β :=
  (d.entries.find? fun entry => entry.1 = name).map Prod.snd

def empty : Directory ν β := ⟨[], List.nodup_nil⟩

def create (d : Directory ν β) (name : ν) (content : β) : Option (Directory ν β) :=
  if h : name ∈ d.names then none
  else some ⟨d.entries ++ [(name, content)], by
    rw [List.map_append, List.nodup_append]
    refine ⟨d.nodup, by simp, ?_⟩
    intro a ha b hb
    rw [List.map_singleton, List.mem_singleton] at hb
    subst hb
    exact fun he => h (he ▸ ha)⟩

def renamed (source target name : ν) : ν := if name = source then target else name

theorem nodup_renamed {entries : List (ν × β)} (h : (entries.map Prod.fst).Nodup)
    (source target : ν) :
    (((entries.filter fun entry => entry.1 ≠ target).map
      fun entry => (renamed source target entry.1, entry.2)).map Prod.fst).Nodup := by
  rw [List.map_map]
  have hf : ((entries.filter fun entry => entry.1 ≠ target).map Prod.fst).Nodup :=
    h.sublist (List.filter_sublist.map _)
  rw [show Prod.fst ∘ (fun entry : ν × β => (renamed source target entry.1, entry.2)) =
    renamed source target ∘ Prod.fst from rfl, ← List.map_map]
  apply hf.map_on
  intro a ha b hb hab
  have hne : ∀ c ∈ (entries.filter fun entry => entry.1 ≠ target).map Prod.fst, c ≠ target := by
    intro c hc
    obtain ⟨entry, he, rfl⟩ := List.mem_map.mp hc
    simpa using (List.mem_filter.mp he).2
  simp only [renamed] at hab
  split_ifs at hab with h₁ h₂ h₂
  · rw [h₁, h₂]
  · exact absurd hab.symm (hne b hb)
  · exact absurd hab (hne a ha)
  · exact hab

/-- rename() within one directory: an entry under the target is replaced. There
is no result when the source does not exist. -/
def rename (d : Directory ν β) (source target : ν) : Option (Directory ν β) :=
  if source ∉ d.names then none
  else if source = target then some d
  else some ⟨(d.entries.filter fun entry => entry.1 ≠ target).map
    fun entry => (renamed source target entry.1, entry.2), nodup_renamed d.nodup source target⟩

theorem rename_isSome {d : Directory ν β} {source target : ν} :
    (d.rename source target).isSome ↔ source ∈ d.names := by
  rw [rename]
  split_ifs with h₁ h₂ <;> simp_all

theorem mem_of_rename {d e : Directory ν β} {source target : ν}
    (h : d.rename source target = some e) : source ∈ d.names :=
  rename_isSome.mp (Option.isSome_of_eq_some h)

theorem find_isSome {d : Directory ν β} {name : ν} : (d.find name).isSome ↔ name ∈ d.names := by
  simp [find, names]

theorem find_eq_some_iff {d : Directory ν β} {name : ν} {content : β} :
    d.find name = some content ↔ (name, content) ∈ d.entries := by
  rw [find, Option.map_eq_some_iff]
  constructor
  · rintro ⟨entry, hf, rfl⟩
    have hname : entry.1 = name := by simpa using List.find?_some hf
    rw [← hname]
    exact List.mem_of_find?_eq_some hf
  · intro hm
    have hs : (d.entries.find? fun entry => entry.1 = name).isSome :=
      List.find?_isSome.mpr ⟨_, hm, by simp⟩
    obtain ⟨entry, hf⟩ := Option.isSome_iff_exists.mp hs
    have hname : entry.1 = name := by simpa using List.find?_some hf
    have he : entry = (name, content) :=
      List.inj_on_of_nodup_map d.nodup (List.mem_of_find?_eq_some hf) hm hname
    exact ⟨entry, hf, by rw [he]⟩

theorem find_eq_none_iff {d : Directory ν β} {name : ν} : d.find name = none ↔ name ∉ d.names := by
  rw [← find_isSome, Option.not_isSome_iff_eq_none]

theorem find_create {d e : Directory ν β} {name : ν} {content : β}
    (h : d.create name content = some e) (other : ν) :
    e.find other = if other = name then some content else d.find other := by
  rw [create] at h
  split_ifs at h with hn
  obtain rfl := Option.some.inj h
  ext c
  rw [find_eq_some_iff, List.mem_append, List.mem_singleton, Prod.mk.injEq]
  by_cases ho : other = name
  · subst ho
    have hout : (other, c) ∉ d.entries := fun hm => hn (List.mem_map_of_mem (f := Prod.fst) hm)
    simp [hout, eq_comm]
  · simp [ho, find_eq_some_iff]

theorem rename_eq_some {d e : Directory ν β} {source target : ν} (hne : source ≠ target)
    (h : d.rename source target = some e) :
    e.entries = (d.entries.filter fun entry => entry.1 ≠ target).map
      fun entry => (renamed source target entry.1, entry.2) := by
  rw [rename, if_neg hne] at h
  split_ifs at h
  obtain rfl := Option.some.inj h
  rfl

theorem find_rename {d e : Directory ν β} {source target : ν} (hne : source ≠ target)
    (h : d.rename source target = some e) (name : ν) :
    e.find name = if name = target then d.find source
      else if name = source then none else d.find name := by
  have hmem (c : β) : (name, c) ∈ e.entries ↔
      ∃ old, (old, c) ∈ d.entries ∧ old ≠ target ∧ renamed source target old = name := by
    rw [rename_eq_some hne h, List.mem_map]
    constructor
    · rintro ⟨⟨old, c'⟩, hm, he⟩
      obtain ⟨hm, ht⟩ := List.mem_filter.mp hm
      obtain ⟨hold, rfl⟩ := Prod.mk.injEq .. ▸ he
      exact ⟨old, hm, by simpa using ht, hold⟩
    · rintro ⟨old, hm, ht, hold⟩
      exact ⟨(old, c), List.mem_filter.mpr ⟨hm, by simpa using ht⟩, by rw [hold]⟩
  ext c
  rw [find_eq_some_iff, hmem]
  simp only [renamed]
  split_ifs with ht hs
  · subst ht
    rw [find_eq_some_iff]
    constructor
    · rintro ⟨old, hm, ho, hr⟩
      split_ifs at hr with hold
      · rwa [← hold]
      · exact absurd hr ho
    · intro hm
      exact ⟨source, hm, hne, if_pos rfl⟩
  · subst hs
    simp only [iff_false]
    rintro ⟨old, -, -, hr⟩
    split_ifs at hr with hold
    · exact ht hr.symm
    · exact hold hr
  · rw [find_eq_some_iff]
    constructor
    · rintro ⟨old, hm, ho, hr⟩
      split_ifs at hr with hold
      · exact absurd hr.symm ht
      · rwa [← hr]
    · intro hm
      exact ⟨name, hm, ht, if_neg hs⟩

theorem entries_rename {d e : Directory ν β} {source target : ν} (hne : source ≠ target)
    (hfree : target ∉ d.names) (h : d.rename source target = some e) :
    e.entries = d.entries.map fun entry => (renamed source target entry.1, entry.2) := by
  rw [rename_eq_some hne h, List.filter_eq_self.mpr]
  intro entry hm
  simp only [decide_eq_true_eq]
  exact fun he => hfree (he ▸ List.mem_map_of_mem (f := Prod.fst) hm)

end Directory

end Library.Directories
