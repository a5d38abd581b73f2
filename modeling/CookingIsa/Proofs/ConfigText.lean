import Mathlib
import CookingIsa.Proofs.Settings

/-!
# Configurations as texts

What is read of a setting is the value that is written for it, so a section is read as the values
of its settings (`changes_section_iff`) and the whole as the values of all of them
(`changes_iff_written`). A configuration is thus read off the front of the tokens exactly if it is
written there, and off a text exactly if the text is nothing else (`reads_sections`).
-/

namespace CookingIsa.Config

open Json

variable {ch : Choices} {c c' : Config} {s : Section} {x : Setting} {t doc : Tree}
  {fields : List (String × Tree)} {text : String}

/-! ## Sections -/

/-- What is read for a setting is put in its place. -/
def SettingStep (name : String) (t : Tree) (c c' : Config) : Prop :=
  ∃ x : Setting, x.name = name ∧ ∃ v, x.Writes t v ∧ c' = x.put c v

/-- The value of a setting is the one that is written. -/
def SettingGives (name : String) (t : Tree) (ch : Choices) : Prop :=
  ∃ x : Setting, x.name = name ∧ ∃ v, x.Writes t v ∧ ch x = some v

theorem concerns_setting : Concerns Setting.name SettingGives := by
  rintro name t ch ch' hsame ⟨x, rfl, v, hv, hx⟩
  exact ⟨x, rfl, v, hv, (hsame x rfl).symm.trans hx⟩

theorem chooses_setting (name : String) (t : Tree) :
    Chooses Setting.name SettingStep SettingGives name t := by
  intro ch c' _
  constructor
  · rintro ⟨x, rfl, v, hv, rfl⟩
    refine ⟨Function.update ch x (some v), (ofChoices_update ch x v).symm,
      ⟨x, rfl, v, hv, Function.update_self x (some v) ch⟩, fun y hy => ?_⟩
    exact Function.update_of_ne (fun h => hy (congrArg Setting.name h)) _ _
  · rintro ⟨ch', rfl, ⟨x, rfl, v, hv, hx⟩, hother⟩
    refine ⟨x, rfl, v, hv, ?_⟩
    rw [← ofChoices_update]
    congr 1
    funext y
    by_cases hy : y = x
    · subst hy
      rw [hx, Function.update_self]
    · rw [Function.update_of_ne hy, hother y fun h => hy (Setting.name_injective h)]

theorem settings_nodup (s : Section) : (s.settings.map Setting.name).Nodup := by
  cases s <;> decide

theorem home_of_mem (h : x.name ∈ s.settings.map Setting.name) : x.home = s := by
  obtain ⟨y, hy, hname⟩ := List.mem_map.1 h
  exact Setting.name_injective hname ▸ mem_settings.1 hy

theorem changes_section_iff (hfields : t.Fields (s.settings.map Setting.name) fields)
    (hfresh : ∀ x, x.home = s → ch x = none) :
    Changes SettingStep fields (ofChoices ch) c' ↔
      ∃ ch', c' = ofChoices ch' ∧ s.Writes fields ch' ∧ ∀ x, x.home ≠ s → ch' x = ch x := by
  have hhome : ∀ x : Setting, x.name ∈ fields.map Prod.fst → x.home = s := by
    intro x hx
    obtain ⟨field, hfield, hname⟩ := List.mem_map.1 hx
    exact home_of_mem (hname ▸ hfields.mem_names field hfield)
  have hnodup := hfields.nodup (settings_nodup s)
  rw [changes_iff concerns_setting (fun field _ => chooses_setting field.1 field.2) hnodup
    fun x hx => hfresh x (hhome x hx)]
  refine exists_congr fun ch' => and_congr_right fun _ => ⟨?_, ?_⟩
  · rintro ⟨hgives, hsame⟩
    refine ⟨fun x hx => ?_, fun x hx => hsame x fun h => hx (hhome x h)⟩
    rcases hfield : fields.lookup x.name with _ | t
    · exact rel_none_iff.2 ((hsame x (lookup_eq_none_iff_not_mem.1 hfield)).trans (hfresh x hx))
    · obtain ⟨y, hy, v, hv, hchoice⟩ := hgives _ ((lookup_eq_some_iff_mem hnodup).1 hfield)
      obtain rfl := Setting.name_injective hy
      exact rel_some_iff.2 ⟨v, hv, hchoice⟩
  · rintro ⟨hwrites, hother⟩
    refine ⟨fun field hfield => ?_, fun x hx => ?_⟩
    · obtain ⟨x, hx, hname⟩ := List.mem_map.1 (hfields.mem_names field hfield)
      have hwritten := hwrites x (mem_settings.1 hx)
      rw [hname, (lookup_eq_some_iff_mem hnodup).2 hfield, rel_some_iff] at hwritten
      exact ⟨x, hname, hwritten⟩
    · by_cases hhere : x.home = s
      · have hwritten := hwrites x hhere
        rw [lookup_eq_none_iff_not_mem.2 hx, rel_none_iff] at hwritten
        rw [hwritten, hfresh x hhere]
      · exact hother x hhere

/-! ## The whole configuration -/

/-- The settings of a section are read one after the other. -/
def SectionStep (name : String) (t : Tree) (c c' : Config) : Prop :=
  ∃ s : Section, s.name = name ∧ ∃ fields : List (String × Tree),
    t.Fields (s.settings.map Setting.name) fields ∧ Changes SettingStep fields c c'

/-- The values of the settings of a section are those that are written. -/
def SectionGives (name : String) (t : Tree) (ch : Choices) : Prop :=
  ∃ s : Section, s.name = name ∧ ∃ fields : List (String × Tree),
    t.Fields (s.settings.map Setting.name) fields ∧ s.Writes fields ch

theorem concerns_section : Concerns (fun x => x.home.name) SectionGives := by
  rintro name t ch ch' hsame ⟨s, rfl, fields, hfields, hwrites⟩
  refine ⟨s, rfl, fields, hfields, fun x hx => ?_⟩
  rw [← hsame x (congrArg Section.name hx)]
  exact hwrites x hx

theorem chooses_section (name : String) (t : Tree) :
    Chooses (fun x => x.home.name) SectionStep SectionGives name t := by
  intro ch c' hfresh
  constructor
  · rintro ⟨s, rfl, fields, hfields, hchanges⟩
    obtain ⟨ch', rfl, hwrites, hother⟩ := (changes_section_iff hfields fun x hx =>
      hfresh x (congrArg Section.name hx)).1 hchanges
    exact ⟨ch', rfl, ⟨s, rfl, fields, hfields, hwrites⟩, fun x hx =>
      hother x fun h => hx (congrArg Section.name h)⟩
  · rintro ⟨ch', rfl, ⟨s, rfl, fields, hfields, hwrites⟩, hother⟩
    refine ⟨s, rfl, fields, hfields, (changes_section_iff hfields fun x hx =>
      hfresh x (congrArg Section.name hx)).2 ⟨ch', rfl, hwrites, fun x hx => ?_⟩⟩
    exact hother x fun h => hx (Section.name_injective h)

theorem reads_member (x : Setting) (c : Config) :
    Reads (x.member.read c) fun t c' => SettingStep x.name t c c' := by
  refine (reads_setting (reads_read x) c).congr fun t c' => ⟨fun h => ⟨x, rfl, h⟩, ?_⟩
  rintro ⟨y, hy, h⟩
  obtain rfl := Setting.name_injective hy
  exact h

theorem readsMembers_sections : ReadsMembers sections SectionStep := by
  rw [sections_eq]
  refine List.forall_mem_map.2 fun s _ c => ?_
  have hsettings : ReadsMembers (s.settings.map Setting.member) SettingStep :=
    List.forall_mem_map.2 fun x _ => reads_member x
  refine (reads_readRecord hsettings s.wanted c).congr fun t c' => ?_
  rw [List.map_map]
  refine ⟨fun h => ⟨s, rfl, h⟩, ?_⟩
  rintro ⟨s', hs, h⟩
  obtain rfl := Section.name_injective hs
  exact h

theorem sections_nodup : (Section.all.map Section.name).Nodup := by decide

theorem changes_iff_written {sections : List (String × Tree)}
    (hfields : doc.Fields (Section.all.map Section.name) sections) :
    Changes SectionStep sections {} c ↔ ∃ ch, c = ofChoices ch ∧ ∀ s : Section, ∃ fields,
      FieldsOf (s.settings.map Setting.name) (sections.lookup s.name) fields ∧
        s.Writes fields ch := by
  have hdefault : ({} : Config) = ofChoices fun _ => none := rfl
  have hnodup := hfields.nodup sections_nodup
  rw [hdefault, changes_iff concerns_section (fun field _ => chooses_section field.1 field.2) hnodup
    fun _ _ => rfl]
  refine exists_congr fun ch => and_congr_right fun _ => ⟨?_, ?_⟩
  · rintro ⟨hgives, hsame⟩ s
    rcases hfield : sections.lookup s.name with _ | t
    · refine ⟨[], .absent, fun x hx => rel_none_iff.2 (hsame x ?_)⟩
      rw [hx]
      exact lookup_eq_none_iff_not_mem.1 hfield
    · obtain ⟨s', hs, fields, hwritten, hwrites⟩ :=
        hgives _ ((lookup_eq_some_iff_mem hnodup).1 hfield)
      obtain rfl := Section.name_injective hs
      exact ⟨fields, .written hwritten, hwrites⟩
  · intro hsections
    refine ⟨fun field hfield => ?_, fun x hx => ?_⟩
    · obtain ⟨s, -, hname⟩ := List.mem_map.1 (hfields.mem_names field hfield)
      obtain ⟨fields, hof, hwrites⟩ := hsections s
      rw [hname, (lookup_eq_some_iff_mem hnodup).2 hfield] at hof
      cases hof with
      | written hwritten => exact ⟨s, hname, fields, hwritten, hwrites⟩
    · obtain ⟨fields, hof, hwrites⟩ := hsections x.home
      rw [lookup_eq_none_iff_not_mem.2 hx] at hof
      cases hof
      exact rel_none_iff.1 (hwrites x rfl)

/-- A configuration is read off the front of the tokens exactly if it is written there. -/
theorem reads_sections (wanted : String) :
    Reads (readRecord sections wanted {}) fun doc c => ∃ ch, Written doc ch ∧ c = ofChoices ch := by
  refine (reads_readRecord readsMembers_sections wanted {}).congr fun doc c => ?_
  constructor
  · rintro ⟨fields, hfields, hchanges⟩
    obtain ⟨ch, rfl, hsections⟩ := (changes_iff_written hfields).1 hchanges
    exact ⟨ch, ⟨fields, hfields, hsections⟩, rfl⟩
  · rintro ⟨ch, ⟨fields, hfields, hsections⟩, rfl⟩
    exact ⟨fields, hfields, (changes_iff_written hfields).2 ⟨ch, rfl, hsections⟩⟩

theorem getD_lt_iff {o : Option Nat} {d bound : Nat} (hd : d < bound) :
    o.getD d < bound ↔ ∀ n, o = some n → n < bound := by
  cases o <;> simp [hd]

theorem ofJson_eq_of_written (htext : doc.IsText text) (h : Written doc ch) :
    ofJson text = match (ofChoices ch).validate with
      | .error e => .error (.unwanted e.message)
      | .ok () => .ok (ofChoices ch) := by
  have hread : readRecord sections "struct Config" {} (tokensOf text) = .ok (ofChoices ch, []) := by
    refine (reads_sections _ _ _ _).2 ⟨doc, ?_, ch, h, rfl⟩
    rw [List.append_nil]
    exact Tree.tokensOf_eq_iff.2 htext
  rw [ofJson, hread]
  rfl

/-- However it is written, a configuration is read as the chosen values and the defaults, unless a
register of a host call that is written does not exist. The selector is looked at first. -/
theorem ofJson_of_written (htext : doc.IsText text) (h : Written doc ch) :
    ((∀ n, ch .selectorRegister = some n → n < 32) →
      (∀ n, ch .argumentRegister = some n → n < 32) → ofJson text = .ok (ofChoices ch)) ∧
    (∀ n, ch .selectorRegister = some n → 32 ≤ n → ofJson text =
      .error (.unwanted (SetupError.hostCallRegister .selector n).message)) ∧
    ∀ n, (∀ m, ch .selectorRegister = some m → m < 32) → ch .argumentRegister = some n →
      32 ≤ n → ofJson text =
        .error (.unwanted (SetupError.hostCallRegister .argument n).message) := by
  rw [ofJson_eq_of_written htext h]
  refine ⟨fun hselector hargument => ?_, fun n hselector hn => ?_,
    fun n hselector hargument hn => ?_⟩
  · have hvalid : (ofChoices ch).validate = .ok () := validate_eq_ok_iff.2
      ⟨(getD_lt_iff (by decide)).2 hselector, (getD_lt_iff (by decide)).2 hargument⟩
    rw [hvalid]
  · have hregister : (ofChoices ch).selectorRegister = n := congrArg (Option.getD · 2) hselector
    rw [validate, hregister, if_pos hn]
  · have hvalid : (ofChoices ch).selectorRegister < 32 := (getD_lt_iff (by decide)).2 hselector
    have hregister : (ofChoices ch).argumentRegister = n := congrArg (Option.getD · 4) hargument
    rw [validate, if_neg (Nat.not_le.2 hvalid), hregister, if_pos hn]

/-- A key with half of a character in it is no key, known or not. -/
theorem not_ofJson_half_key :
    (Tree.object [([.high 0xd800], .literal none)]).IsText "\x7b\"\\ud800\": null\x7d" ∧
      (∀ s : Section, ¬Decodes [.high 0xd800] s.name.toList) ∧
      ofJson "\x7b\"\\ud800\": null\x7d" ≠ .ok (ofChoices fun _ => none) := by
  refine ⟨Tree.tokensOf_eq_iff.1 (by decide +kernel), ?_, ?_⟩
  · rintro s ⟨⟩
  · have hread : ofJson "\x7b\"\\ud800\": null\x7d" = .error .malformed := by rfl
    rw [hread]
    nofun

theorem ofJson_of_written_array : ∃ (doc : Tree) (ch : Choices),
    doc.IsText "\x7b\"x\": [\x7b\x7d, 1e9], \"host_call\": [7]\x7d" ∧ Written doc ch ∧
      ofJson "\x7b\"x\": [\x7b\x7d, 1e9], \"host_call\": [7]\x7d" =
        .ok { selectorRegister := 7 } := by
  let power : Tree := .number ⟨false, ['1'], [], some (false, ['9'])⟩
  let seven : Tree := .number ⟨false, ['7'], [], none⟩
  let doc : Tree := .object [("x".toList.map .char, .array [.object [], power]),
    ("host_call".toList.map .char, .array [seven])]
  let ch : Choices := fun
    | .selectorRegister => some 7
    | _ => none
  have htext : doc.IsText "\x7b\"x\": [\x7b\x7d, 1e9], \"host_call\": [7]\x7d" :=
    Tree.tokensOf_eq_iff.1 (by decide +kernel)
  have hwritten : Written doc ch := by
    refine ⟨[("host_call", .array [seven])], .object (.unknown (decodes_chars _) (by decide)
      (.known (decodes_chars _) (by decide) (by decide) .nil)), fun s => ?_⟩
    cases s with
    | hostCall =>
      refine ⟨[("selector_register", seven)], .written (.array (by decide)), ?_⟩
      rintro ⟨⟩ ⟨⟩
      · exact .some ⟨.number rfl, by decide⟩
      · exact .none
    | _ =>
      refine ⟨[], .absent, ?_⟩
      rintro ⟨⟩ ⟨⟩ <;> exact .none
  refine ⟨doc, ch, htext, hwritten, (ofJson_of_written htext hwritten).1 ?_ ?_⟩
  · rintro n ⟨⟩
    decide
  · rintro n ⟨⟩

/-- Every text that is read is a configuration, written as it should be, and is read as it is
written. -/
theorem written_of_ofJson (h : ofJson text = .ok c) :
    ∃ doc : Tree, doc.IsText text ∧ ∃ ch, Written doc ch ∧
      (∀ n, ch .selectorRegister = some n → n < 32) ∧
      (∀ n, ch .argumentRegister = some n → n < 32) ∧ c = ofChoices ch := by
  obtain ⟨⟨c', rest⟩, hread, h⟩ := bind_eq_ok_iff.1 h
  dsimp only at h
  split_ifs at h with hrest
  · split at h
    · cases h
    · rename_i hvalid
      cases h
      obtain rfl := List.isEmpty_iff.1 hrest
      obtain ⟨doc, htokens, ch, hwritten, rfl⟩ := (reads_sections _ _ _ _).1 hread
      rw [List.append_nil] at htokens
      obtain ⟨hselector, hargument⟩ := validate_eq_ok_iff.1 hvalid
      exact ⟨doc, Tree.tokensOf_eq_iff.1 htokens, ch, hwritten,
        (getD_lt_iff (by decide)).1 hselector, (getD_lt_iff (by decide)).1 hargument, rfl⟩

theorem written_of_ofJson_array :
    ofJson "[[true], \x7b\x7d, [\"fault\"]]" =
      .ok { traceInstructions := true, unchosen := .fault } ∧
    ∃ (doc : Tree) (ch : Choices), doc.IsText "[[true], \x7b\x7d, [\"fault\"]]" ∧
      Written doc ch ∧ ofChoices ch = { traceInstructions := true, unchosen := .fault } := by
  have hread : ofJson "[[true], \x7b\x7d, [\"fault\"]]" =
      .ok { traceInstructions := true, unchosen := .fault } := by rfl
  obtain ⟨doc, htext, ch, hwritten, -, -, hc⟩ := written_of_ofJson hread
  exact ⟨hread, doc, ch, htext, hwritten, hc.symm⟩

end CookingIsa.Config
