import Mathlib.Data.List.Nodup
import Phrasebook.Config.Reader
import Phrasebook.Proofs.Json.Printed

/-!
# Configurations read back

What an object is read as is said by its members alone (`IsSetBy`): no setting is there twice, and
each has the value of its member, or the default. So the order of the members does not matter, nor
whether a member is there that sets what is set by default, and every configuration is read back
from the text that it is written as (`round_trip`).
-/

namespace Phrasebook

theorem Mode.ofName?_name (m : Mode) : Mode.ofName? m.name = some m := by cases m <;> rfl

theorem Schema.ofName?_name (s : Schema) : Schema.ofName? s.name = some s := by cases s <;> rfl

namespace Config

/-- A member of an object, as it stands in a configuration file. -/
abbrev Member := Option String × Written

variable {base c d : Config} {f : Field} {v : Written} {m : Member} {ms ms' : List Member}
  {seen : List Field}

/-! ## Settings -/

theorem Field.ofKey?_key (f : Field) : Field.ofKey? f.key = some f := by cases f <;> rfl

theorem Field.mem_all (f : Field) : f ∈ Field.all := by cases f <;> decide

theorem Field.nodup_all : Field.all.Nodup := by decide

/-- A configuration is no more than the texts of its settings. -/
theorem ext_get (h : ∀ f, c.get f = d.get f) : c = d := by
  have hmode : c.mode = d.mode := by
    have hname := congrArg Mode.ofName? (h .mode)
    rw [get, get, Mode.ofName?_name, Mode.ofName?_name] at hname
    exact Option.some.inj hname
  have hschema : c.schema = d.schema := by
    have hname := congrArg Schema.ofName? (h .schema)
    rw [get, get, Schema.ofName?_name, Schema.ofName?_name] at hname
    exact Option.some.inj hname
  obtain ⟨c₁, c₂, c₃, c₄, c₅, c₆, c₇⟩ := c
  obtain ⟨d₁, d₂, d₃, d₄, d₅, d₆, d₇⟩ := d
  obtain rfl : c₁ = d₁ := h .messagesRoot
  obtain rfl : c₂ = d₂ := h .sourceLocale
  obtain rfl : c₃ = d₃ := h .output
  obtain rfl : c₄ = d₄ := hmode
  obtain rfl : c₅ = d₅ := hschema
  obtain rfl : c₆ = d₆ := h .localeType
  obtain rfl : c₇ = d₇ := h .localeTypeModule
  rfl

/-- The text of a setting that has a value. -/
def textOf? (f : Field) (v : Written) : Option String := (({} : Config).set? f v).map (·.get f)

theorem textOf?_string (f : Field) (c : Config) :
    textOf? f (.string (some (c.get f))) = some (c.get f) := by
  cases f with
  | mode => simp [textOf?, set?, choice?, get, Mode.ofName?_name]
  | schema => simp [textOf?, set?, choice?, get, Schema.ofName?_name]
  | _ => rfl

theorem isSome_set? (c : Config) (f : Field) (v : Written) :
    (c.set? f v).isSome = (textOf? f v).isSome := by
  cases f <;> simp only [set?, textOf?, Option.isSome_map]

/-- Setting changes one setting. -/
theorem get_of_set? (h : c.set? f v = some d) :
    textOf? f v = some (d.get f) ∧ ∀ g, g ≠ f → d.get g = c.get g := by
  cases f <;> simp only [set?, Option.map_eq_some_iff] at h <;> obtain ⟨text, htext, rfl⟩ := h <;>
    refine ⟨by simp [textOf?, set?, htext, get], fun g hg => ?_⟩ <;> cases g <;>
      first | rfl | exact absurd rfl hg

/-- A value that is the text of a setting can be set. -/
theorem exists_set? {text : String} (c : Config) (h : textOf? f v = some text) :
    ∃ d, c.set? f v = some d ∧ d.get f = text ∧ ∀ g, g ≠ f → d.get g = c.get g := by
  have hsome := isSome_set? c f v
  rw [h] at hsome
  obtain ⟨d, hd⟩ := Option.isSome_iff_exists.1 hsome
  obtain ⟨htext, hothers⟩ := get_of_set? hd
  rw [h] at htext
  exact ⟨d, hd, (Option.some.inj htext).symm, hothers⟩

/-! ## Objects -/

/-- The setting of a member, unless its key is that of none. -/
def field? (m : Member) : Option Field := m.1.bind Field.ofKey?

theorem ne_none_of_field? (hm : field? m = some f) : m.1 ≠ none := by
  intro h
  rw [field?, h] at hm
  cases hm

/-- The settings of some members. -/
def fieldsOf (ms : List Member) : List Field := ms.filterMap field?

theorem fieldsOf_cons_of_none (hm : field? m = none) : fieldsOf (m :: ms) = fieldsOf ms :=
  List.filterMap_cons_none hm

theorem fieldsOf_cons_of_some (hm : field? m = some f) : fieldsOf (m :: ms) = f :: fieldsOf ms :=
  List.filterMap_cons_some hm

theorem fieldsOf_append (ms ms' : List Member) :
    fieldsOf (ms ++ ms') = fieldsOf ms ++ fieldsOf ms' :=
  List.filterMap_append

/-- The configuration is another one with what the members set: every key is a text, no setting is
there twice, and the settings that are not there stay as they are. -/
structure IsSetBy (base : Config) (ms : List Member) (c : Config) : Prop where
  keys : ∀ m ∈ ms, m.1 ≠ none
  once : (fieldsOf ms).Nodup
  given : ∀ m ∈ ms, ∀ f, field? m = some f → textOf? f m.2 = some (c.get f)
  others : ∀ f, f ∉ fieldsOf ms → c.get f = base.get f

theorem isSetBy_nil : IsSetBy base [] c ↔ base = c := by
  constructor
  · intro h
    exact (ext_get fun f => h.others f List.not_mem_nil).symm
  · rintro rfl
    exact ⟨nofun, List.nodup_nil, nofun, fun _ _ => rfl⟩

theorem isSetBy_cons_of_none (hkey : m.1 ≠ none) (hm : field? m = none) :
    IsSetBy base (m :: ms) c ↔ IsSetBy base ms c := by
  have hfields : fieldsOf (m :: ms) = fieldsOf ms := fieldsOf_cons_of_none hm
  constructor
  · rintro ⟨hkeys, honce, hgiven, hothers⟩
    rw [hfields] at honce hothers
    exact ⟨fun m' hm' => hkeys m' (List.mem_cons_of_mem _ hm'), honce,
      fun m' hm' => hgiven m' (List.mem_cons_of_mem _ hm'), hothers⟩
  · rintro ⟨hkeys, honce, hgiven, hothers⟩
    rw [← hfields] at honce hothers
    refine ⟨List.forall_mem_cons.2 ⟨hkey, hkeys⟩, honce, List.forall_mem_cons.2 ⟨?_, hgiven⟩,
      hothers⟩
    intro f hf
    rw [hm] at hf
    cases hf

theorem isSetBy_cons_of_some (hm : field? m = some f) :
    IsSetBy base (m :: ms) c ↔
      ∃ d, base.set? f m.2 = some d ∧ IsSetBy d ms c ∧ f ∉ fieldsOf ms := by
  have hfields : fieldsOf (m :: ms) = f :: fieldsOf ms := fieldsOf_cons_of_some hm
  constructor
  · rintro ⟨hkeys, honce, hgiven, hothers⟩
    rw [hfields] at honce hothers
    obtain ⟨hf, honce⟩ := List.nodup_cons.1 honce
    obtain ⟨d, hset, hd, hrest⟩ := exists_set? base (hgiven m List.mem_cons_self f hm)
    refine ⟨d, hset, ⟨fun m' hm' => hkeys m' (List.mem_cons_of_mem _ hm'), honce,
      fun m' hm' => hgiven m' (List.mem_cons_of_mem _ hm'), fun g hg => ?_⟩, hf⟩
    by_cases hgf : g = f
    · rw [hgf, hd]
    · rw [hrest g hgf, hothers g (List.not_mem_cons_of_ne_of_not_mem hgf hg)]
  · rintro ⟨d, hset, ⟨hkeys, honce, hgiven, hothers⟩, hf⟩
    obtain ⟨htext, hrest⟩ := get_of_set? hset
    refine ⟨List.forall_mem_cons.2 ⟨ne_none_of_field? hm, hkeys⟩, ?_,
      List.forall_mem_cons.2 ⟨?_, hgiven⟩, ?_⟩
    · rw [hfields]
      exact List.nodup_cons.2 ⟨hf, honce⟩
    · intro g hg
      rw [hm] at hg
      cases hg
      rw [hothers f hf, htext]
    · intro g hg
      rw [hfields, List.mem_cons, not_or] at hg
      rw [hothers g hg.2, hrest g hg.1]

/-- One member after another is applied. -/
theorem applyMembers?_eq_some_iff :
    applyMembers? base seen ms = some c ↔
      IsSetBy base ms c ∧ ∀ f ∈ fieldsOf ms, f ∉ seen := by
  induction ms generalizing base seen with
  | nil => simp [applyMembers?, isSetBy_nil, fieldsOf]
  | cons m ms ih =>
    obtain ⟨key, v⟩ := m
    cases key with
    | none =>
      rw [applyMembers?]
      exact ⟨nofun, fun h => absurd rfl (h.1.keys _ List.mem_cons_self)⟩
    | some key =>
      rw [applyMembers?]
      cases hkey : Field.ofKey? key with
      | none =>
        have hm : field? (some key, v) = none := hkey
        dsimp only
        rw [ih, isSetBy_cons_of_none (Option.some_ne_none key) hm, fieldsOf_cons_of_none hm]
      | some f =>
        have hm : field? (some key, v) = some f := hkey
        dsimp only
        rw [isSetBy_cons_of_some hm, fieldsOf_cons_of_some hm, List.forall_mem_cons]
        by_cases hf : f ∈ seen
        · simp [hf]
        · rw [if_neg hf, Option.bind_eq_some_iff]
          simp only [ih, List.mem_cons, not_or]
          constructor
          · rintro ⟨d, hset, hd, hseen⟩
            exact ⟨⟨d, hset, hd, fun h => (hseen f h).1 rfl⟩, hf, fun g hg => (hseen g hg).2⟩
          · rintro ⟨⟨d, hset, hd, hnot⟩, -, hseen⟩
            exact ⟨d, hset, hd, fun g hg => ⟨fun h => hnot (h ▸ hg), hseen g hg⟩⟩

theorem ofValue?_object_eq_some_iff : ofValue? (.object ms) = some c ↔ IsSetBy {} ms c := by
  rw [ofValue?, applyMembers?_eq_some_iff]
  exact and_iff_left fun f _ => List.not_mem_nil

theorem IsSetBy.perm (h : IsSetBy base ms c) (hp : ms.Perm ms') : IsSetBy base ms' c where
  keys m hm := h.keys m (hp.mem_iff.2 hm)
  once := (hp.filterMap field?).nodup_iff.1 h.once
  given m hm := h.given m (hp.mem_iff.2 hm)
  others f hf := h.others f fun hmem => hf ((hp.filterMap field?).mem_iff.1 hmem)

/-! ## Defaults -/

/-- The member sets what is set by default. -/
def IsDefault (m : Member) : Prop :=
  ∃ f, field? m = some f ∧ textOf? f m.2 = some (({} : Config).get f)

/-- The members of an object are those of another one in any order, and others that set what is set
by default, each the only one of its setting. -/
structure AddDefaults (ms ms' extra : List Member) : Prop where
  perm : ms.Perm (extra ++ ms')
  default : ∀ m ∈ extra, IsDefault m
  once : (fieldsOf extra).Nodup
  apart : ∀ f ∈ fieldsOf extra, f ∉ fieldsOf ms'

theorem AddDefaults.isSetBy_iff {extra : List Member} (h : AddDefaults ms ms' extra) :
    IsSetBy {} ms c ↔ IsSetBy {} ms' c := by
  constructor
  · intro hset
    obtain ⟨hkeys, honce, hgiven, hothers⟩ := hset.perm h.perm
    rw [fieldsOf_append] at honce hothers
    refine ⟨fun m hm => hkeys m (List.mem_append_right _ hm), (List.nodup_append.1 honce).2.1,
      fun m hm => hgiven m (List.mem_append_right _ hm), fun f hf => ?_⟩
    by_cases hextra : f ∈ fieldsOf extra
    · obtain ⟨m, hm, hmf⟩ := List.mem_filterMap.1 hextra
      obtain ⟨g, hmg, htext⟩ := h.default m hm
      obtain rfl : f = g := Option.some.inj (hmf.symm.trans hmg)
      have hc := hgiven m (List.mem_append_left _ hm) f hmf
      exact Option.some.inj (hc.symm.trans htext)
    · exact hothers f (List.not_mem_append hextra hf)
  · rintro ⟨hkeys, honce, hgiven, hothers⟩
    refine IsSetBy.perm ⟨?_, ?_, ?_, ?_⟩ h.perm.symm
    · intro m hm
      rcases List.mem_append.1 hm with hm | hm
      · obtain ⟨f, hmf, -⟩ := h.default m hm
        exact ne_none_of_field? hmf
      · exact hkeys m hm
    · rw [fieldsOf_append]
      refine List.nodup_append.2 ⟨h.once, honce, fun f hf g hg => ?_⟩
      rintro rfl
      exact h.apart f hf hg
    · intro m hm f hmf
      rcases List.mem_append.1 hm with hm | hm
      · obtain ⟨g, hmg, htext⟩ := h.default m hm
        obtain rfl : f = g := Option.some.inj (hmf.symm.trans hmg)
        rw [htext, hothers f (h.apart f (List.mem_filterMap.2 ⟨m, hm, hmf⟩))]
      · exact hgiven m hm f hmf
    · intro f hf
      rw [fieldsOf_append, List.mem_append, not_or] at hf
      exact hothers f hf.2

/-- Neither the order of the members matters, nor whether defaults are there. -/
theorem parse?_eq_of_addDefaults {text text' : String} {extra : List Member}
    (hread : Json.parseLenient? text = some (.object ms))
    (hread' : Json.parseLenient? text' = some (.object ms')) (h : AddDefaults ms ms' extra) :
    parse? text = parse? text' := by
  rw [parse?, parse?, hread, hread', Option.bind_some, Option.bind_some]
  ext c
  rw [ofValue?_object_eq_some_iff, ofValue?_object_eq_some_iff, h.isSetBy_iff]

/-! ## Written configurations -/

theorem fieldsOf_readMembers (fields : List Field) (text : Field → String) :
    fieldsOf (Json.readMembers (fields.map fun f => (f.key, text f))) = fields := by
  induction fields with
  | nil => rfl
  | cons f fields ih =>
    have hm : field? (some f.key, .string (some (text f))) = some f := Field.ofKey?_key f
    exact (fieldsOf_cons_of_some hm).trans (congrArg (f :: ·) ih)

/-- A configuration is read back from the settings that are not as they are by default, with or
without others, in any order. -/
theorem parse?_renderTexts {fields : List Field} (honce : fields.Nodup)
    (hothers : ∀ f, f ∉ fields → c.get f = ({} : Config).get f) :
    parse? (Json.renderTexts (fields.map fun f => (f.key, c.get f))) = some c := by
  rw [parse?, Json.parseLenient?_renderTexts, Option.bind_some, ofValue?_object_eq_some_iff]
  refine ⟨?_, ?_, ?_, ?_⟩
  · intro m hm
    obtain ⟨_, -, rfl⟩ := List.mem_map.1 hm
    exact Option.some_ne_none _
  · rwa [fieldsOf_readMembers]
  · intro m hm f hmf
    obtain ⟨_, hwritten, rfl⟩ := List.mem_map.1 hm
    obtain ⟨g, -, rfl⟩ := List.mem_map.1 hwritten
    obtain rfl : g = f := Option.some.inj ((Field.ofKey?_key g).symm.trans hmf)
    exact textOf?_string g c
  · rwa [fieldsOf_readMembers]

theorem parse?_render (c : Config) : parse? c.render = some c :=
  parse?_renderTexts Field.nodup_all fun f hf => absurd f.mem_all hf

/-- **Round trip.** A configuration is read back from its text, whatever its texts are made of, and
so it can be used if what is read back can. In what order the members of an object stand does not
matter, nor whether there are members that set what is set by default. -/
theorem round_trip :
    (∀ c : Config, parse? c.render = some c ∧ (parse? c.render).map invalid? = some c.invalid?) ∧
      (∀ (c : Config) (fields : List Field), fields.Nodup →
        (∀ f, f ∉ fields → c.get f = ({} : Config).get f) →
          parse? (Json.renderTexts (fields.map fun f => (f.key, c.get f))) = some c) ∧
      ∀ (text text' : String) (ms ms' extra : List Member),
        Json.parseLenient? text = some (.object ms) →
          Json.parseLenient? text' = some (.object ms') → AddDefaults ms ms' extra →
            parse? text = parse? text' := by
  refine ⟨fun c => ⟨parse?_render c, ?_⟩, fun c fields => parse?_renderTexts,
    fun text text' ms ms' extra => parse?_eq_of_addDefaults⟩
  rw [parse?_render, Option.map_some]

/-- A configuration with a quote, a backslash, controls and characters beyond ASCII. -/
def unusual : Config where
  messagesRoot := "a\"b\\c"
  sourceLocale := "\x01\n\x7f"
  output := "ü/日𝄞"
  mode := .single

/-- A mode, and before it an output that is the default. -/
theorem parseLenient?_single :
    Json.parseLenient? "\x7b\"output\":\"./locales.ts\",\"mode\":\"single\"\x7d" =
      some (.object (Json.readMembers [("output", "./locales.ts"), ("mode", "single")])) := by
  have htokens :
      Json.tokens "\x7b\"output\":\"./locales.ts\",\"mode\":\"single\"\x7d".toList =
        some [.openObject, .text (some "output"), .colon, .text (some "./locales.ts"), .comma,
          .text (some "mode"), .colon, .text (some "single"), .closeObject] := by
    decide +kernel
  rw [Json.parseLenient?, htokens]
  rfl

theorem unusual_round_trip :
    parse? unusual.render = some unusual ∧
      parse? (Json.renderTexts ([Field.mode, .sourceLocale, .output, .messagesRoot].map
        fun f => (f.key, unusual.get f))) = some unusual ∧
      parse? "\x7b\"output\":\"./locales.ts\",\"mode\":\"single\"\x7d" =
        parse? (Json.renderTexts [("mode", "single")]) := by
  obtain ⟨hrender, hfields, hmembers⟩ := round_trip
  refine ⟨(hrender unusual).1, hfields unusual _ (by decide) fun f hf => ?_,
    hmembers _ _ _ _ [(some "output", .string (some "./locales.ts"))] parseLenient?_single
      (Json.parseLenient?_renderTexts _) ⟨List.Perm.refl _, ?_, by decide, by decide⟩⟩
  · cases f <;> first | rfl | exact absurd (by decide) hf
  · intro m hm
    obtain rfl := List.mem_singleton.1 hm
    exact ⟨.output, rfl, rfl⟩

end Config

end Phrasebook
