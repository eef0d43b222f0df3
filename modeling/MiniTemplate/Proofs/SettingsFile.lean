import MiniTemplate.Proofs.Mark
import MiniTemplate.Proofs.SettingsMapping
import MiniTemplate.Proofs.Utf8
import MiniTemplate.Settings.Load

/-!
# What the bytes of a file of settings give

The bytes of a file give settings exactly if they are sound
(`MiniTemplate.Settings.exists_ofBytes_iff`): they encode a text, the text is YAML, and what it
denotes is a mapping of settings, or says nothing. Everything else is a failure, and most failures
come with a message that names the file (`MiniTemplate.Settings.path_infix_message`). Those that
come without one are listed by `MiniTemplate.Settings.Untold`, in terms of the bytes, and
`MiniTemplate.Settings.exists_message?_eq_none_iff` says that the list is complete.

All of this is read off one relation, `MiniTemplate.Settings.Gives`, which has a case for each
way through the loading. What a text denotes is up to the loader, and nothing is assumed of it; nor
is anything assumed of which values are nested too deep to be shown.
-/

namespace MiniTemplate

open Yaml (Value)

variable {loader : Yaml.Loader} {fits : Value → Bool} {bytes : List UInt8} {text path : String}
  {v : Value} {es : List (Value × Value)} {α δ ε : Type}

/-- Bytes that encode a text, but for its line breaks. -/
def Encodes (bytes : List UInt8) (text : String) : Prop :=
  ∃ cs : List Char, bytes = cs.flatMap String.utf8EncodeChar ∧
    text = String.ofList (Text.unifyNewlines cs)

theorem decodeText_eq_ok_iff : decodeText bytes = .ok text ↔ Encodes bytes text := by
  rw [decodeText, Encodes]
  cases hcs : Utf8.decode bytes with
  | ok cs =>
    have hbytes := Utf8.decode_eq_ok_iff.mp hcs
    constructor
    · intro h
      exact ⟨cs, hbytes, (Except.ok.inj h).symm⟩
    · rintro ⟨ds, hds, rfl⟩
      obtain rfl : cs = ds := Except.ok.inj (hcs.symm.trans (Utf8.decode_eq_ok_iff.mpr hds))
      rfl
  | error failure =>
    refine iff_of_false (by simp [Except.map]) ?_
    rintro ⟨ds, hds, -⟩
    exact absurd (hcs.symm.trans (Utf8.decode_eq_ok_iff.mpr hds)) (by simp)

theorem exists_decodeText_eq_error_iff :
    (∃ failure, decodeText bytes = .error failure) ↔ ∀ text, ¬Encodes bytes text := by
  cases h : decodeText bytes with
  | ok text => exact iff_of_false (by simp) fun hno => hno text (decodeText_eq_ok_iff.mp h)
  | error failure =>
    refine iff_of_true ⟨failure, rfl⟩ fun text htext => ?_
    exact absurd (h.symm.trans (decodeText_eq_ok_iff.mpr htext)) (by simp)

namespace Settings

/-! ### The ways through the loading -/

/-- Bytes whose text denotes a value. -/
def Denotes (loader : Yaml.Loader) (bytes : List UInt8) (v : Value) : Prop :=
  ∃ text, Encodes bytes text ∧ loader text = .ok v

/-- **What the bytes of a file give**, way by way. -/
inductive Gives (loader : Yaml.Loader) (path : String) (bytes : List UInt8) :
    Except LoadFailure Settings → Prop
  | undecodable {failure : Utf8.Failure} (h : ∀ text, ¬Encodes bytes text) :
    Gives loader path bytes (.error (.undecodable failure))
  | unusable {text : String} {fault : Yaml.Fault} (htext : Encodes bytes text)
    (hload : loader text = .error (.unusable fault)) :
    Gives loader path bytes (.error (.unusable fault))
  | malformed {text message : String} (htext : Encodes bytes text)
    (hload : loader text = .error (.malformed message)) :
    Gives loader path bytes (.error (.malformed path message))
  | empty {v : Value} (hv : Denotes loader bytes v) (hempty : v.isEmptyish) :
    Gives loader path bytes (.ok standard)
  | mapping {v : Value} {es : List (Value × Value)} (hv : Denotes loader bytes v)
    (hes : v.entries? = some es) :
    Gives loader path bytes ((ofMapping es).mapError (.mistaken path))
  | notMapping {v : Value} (hv : Denotes loader bytes v) (hempty : ¬v.isEmptyish)
    (hes : v.entries? = none) : Gives loader path bytes (.error (.notMapping path))

theorem ofBytes_of_encodes (h : Encodes bytes text) :
    ofBytes loader path bytes = ofText loader path text := by
  rw [ofBytes, decodeText_eq_ok_iff.mpr h]

theorem gives_ofBytes (loader : Yaml.Loader) (path : String) (bytes : List UInt8) :
    Gives loader path bytes (ofBytes loader path bytes) := by
  cases hdecode : decodeText bytes with
  | error failure =>
    rw [ofBytes, hdecode]
    exact .undecodable (exists_decodeText_eq_error_iff.mp ⟨failure, hdecode⟩)
  | ok text =>
    have htext := decodeText_eq_ok_iff.mp hdecode
    rw [ofBytes_of_encodes htext]
    unfold ofText
    split
    · rename_i message hload
      exact .malformed htext hload
    · rename_i fault hload
      exact .unusable htext hload
    · rename_i v hload
      have hv : Denotes loader bytes v := ⟨text, htext, hload⟩
      split
      · rename_i hempty
        exact .empty hv hempty
      · rename_i hempty
        split
        · rename_i es hes
          exact .mapping hv hes
        · rename_i hes
          exact .notMapping hv hempty hes

theorem ofBytes_of_unusable {fault : Yaml.Fault} (htext : Encodes bytes text)
    (hload : loader text = .error (.unusable fault)) :
    ofBytes loader path bytes = .error (.unusable fault) := by
  rw [ofBytes_of_encodes htext, ofText, hload]

theorem ofBytes_of_empty (hv : Denotes loader bytes v) (hempty : v.isEmptyish) :
    ofBytes loader path bytes = .ok standard := by
  obtain ⟨text, htext, hload⟩ := hv
  rw [ofBytes_of_encodes htext, ofText, hload]
  exact if_pos hempty

/-- A mapping says nothing if it has no entries. -/
theorem isEmptyish_of_entries? (hes : v.entries? = some es) : v.isEmptyish = es.isEmpty := by
  cases v with
  | mapping entries =>
    obtain rfl := Option.some.inj hes
    rfl
  | ordered entries =>
    obtain rfl := Option.some.inj hes
    rfl
  | _ => exact absurd hes (by simp [Value.entries?])

theorem ofMapping_nil : ofMapping [] = .ok standard := rfl

theorem ofBytes_of_entries? (hv : Denotes loader bytes v) (hes : v.entries? = some es) :
    ofBytes loader path bytes = (ofMapping es).mapError (.mistaken path) := by
  by_cases hempty : v.isEmptyish
  · rw [ofBytes_of_empty hv hempty]
    rw [isEmptyish_of_entries? hes, List.isEmpty_iff] at hempty
    rw [hempty, ofMapping_nil]
    rfl
  · obtain ⟨text, htext, hload⟩ := hv
    rw [ofBytes_of_encodes htext, ofText, hload]
    dsimp only
    rw [if_neg hempty, hes]

/-! ### Sound files -/

/-- **The bytes of a file of settings.** -/
inductive Sound (loader : Yaml.Loader) (bytes : List UInt8) : Prop
  /-- The document says nothing. -/
  | empty {v : Value} (hv : Denotes loader bytes v) (hempty : v.isEmptyish)
  /-- The document is a mapping of settings. -/
  | mapping {v : Value} {es : List (Value × Value)} (hv : Denotes loader bytes v)
    (hes : v.entries? = some es) (hvalid : Valid es)

theorem mapError_eq_ok_iff {x : Except ε α} {f : ε → δ} {a : α} :
    x.mapError f = .ok a ↔ x = .ok a := by
  cases x <;> simp [Except.mapError]

theorem mapError_eq_error_iff {x : Except ε α} {f : ε → δ} {d : δ} :
    x.mapError f = .error d ↔ ∃ e, x = .error e ∧ f e = d := by
  cases x <;> simp [Except.mapError]

/-- **Which bytes give settings.** -/
theorem exists_ofBytes_iff : (∃ s, ofBytes loader path bytes = .ok s) ↔ Sound loader bytes := by
  constructor
  · rintro ⟨s, hs⟩
    have h := gives_ofBytes loader path bytes
    generalize hr : ofBytes loader path bytes = r at h
    cases h with
    | empty hv hempty => exact .empty hv hempty
    | mapping hv hes =>
      have hok := mapError_eq_ok_iff.mp (hr.symm.trans hs)
      exact .mapping hv hes (exists_ofMapping_iff.mp ⟨s, hok⟩)
    | undecodable h => exact absurd (hr.symm.trans hs) (by simp)
    | unusable htext hload => exact absurd (hr.symm.trans hs) (by simp)
    | malformed htext hload => exact absurd (hr.symm.trans hs) (by simp)
    | notMapping hv hempty hes => exact absurd (hr.symm.trans hs) (by simp)
  · intro h
    cases h with
    | empty hv hempty => exact ⟨standard, ofBytes_of_empty hv hempty⟩
    | mapping hv hes hvalid =>
      obtain ⟨s, hs⟩ := exists_ofMapping_iff.mpr hvalid
      exact ⟨s, (ofBytes_of_entries? hv hes).trans (mapError_eq_ok_iff.mpr hs)⟩

/-! ### Failures without a message -/

/-- **The bytes of a file of which nothing is told.** -/
inductive Untold (loader : Yaml.Loader) (fits : Value → Bool) (bytes : List UInt8) : Prop
  /-- The bytes encode no text. -/
  | undecodable (h : ∀ cs : List Char, bytes ≠ cs.flatMap String.utf8EncodeChar)
  /-- The loader fails, and not since the text is not YAML. -/
  | unusable {text : String} {fault : Yaml.Fault} (htext : Encodes bytes text)
    (hload : loader text = .error (.unusable fault))
  /-- A key of the mapping is not a text. -/
  | unlistable {v : Value} {es : List (Value × Value)} (hv : Denotes loader bytes v)
    (hes : v.entries? = some es) (hkey : ∃ e ∈ es, ∀ k, e.1 ≠ .text k)
  /-- The mistake in the mapping would show a value that cannot be shown. -/
  | unshown {v w : Value} {es : List (Value × Value)} {m : Mistake} (hv : Denotes loader bytes v)
    (hes : v.entries? = some es) (hm : ofMapping es = .error m) (hw : m.shows? = some w)
    (hshow : fits w = false ∨ w.showable = false)

theorem forall_not_encodes_iff :
    (∀ text, ¬Encodes bytes text) ↔ ∀ cs : List Char, bytes ≠ cs.flatMap String.utf8EncodeChar :=
  ⟨fun h cs hcs => h _ ⟨cs, hcs, rfl⟩, fun h _ ⟨cs, hcs, _⟩ => h cs hcs⟩

/-- **Which bytes fail without a message.** -/
theorem exists_message?_eq_none_iff :
    (∃ failure, ofBytes loader path bytes = .error failure ∧ failure.message? fits = none) ↔
      Untold loader fits bytes := by
  constructor
  · rintro ⟨failure, hf, hnone⟩
    have h := gives_ofBytes loader path bytes
    generalize hr : ofBytes loader path bytes = r at h
    cases h with
    | undecodable h => exact .undecodable (forall_not_encodes_iff.mp h)
    | unusable htext hload => exact .unusable htext hload
    | mapping hv hes =>
      obtain ⟨m, hm, rfl⟩ := mapError_eq_error_iff.mp (hr.symm.trans hf)
      have hmessage : m.message? fits = none := Option.map_eq_none_iff.mp hnone
      rcases exists_mistake_untold_iff.mp ⟨m, hm, hmessage⟩ with hkey | ⟨m, w, hm, hw, hshow⟩
      · exact .unlistable hv hes hkey
      · exact .unshown hv hes hm hw hshow
    | empty hv hempty => exact absurd (hr.symm.trans hf) (by simp)
    | malformed htext hload =>
      obtain rfl := Except.error.inj (hr.symm.trans hf)
      exact absurd hnone (by simp [LoadFailure.message?])
    | notMapping hv hempty hes =>
      obtain rfl := Except.error.inj (hr.symm.trans hf)
      exact absurd hnone (by simp [LoadFailure.message?])
  · have hmistaken : ∀ {v es}, Denotes loader bytes v → v.entries? = some es →
        (∃ m, ofMapping es = .error m ∧ m.message? fits = none) →
        ∃ failure, ofBytes loader path bytes = .error failure ∧ failure.message? fits = none := by
      rintro v es hv hes ⟨m, hm, hmessage⟩
      refine ⟨.mistaken path m, ?_, Option.map_eq_none_iff.mpr hmessage⟩
      rw [ofBytes_of_entries? hv hes, mapError_eq_error_iff]
      exact ⟨m, hm, rfl⟩
    intro h
    cases h with
    | undecodable h =>
      obtain ⟨failure, hf⟩ :=
        exists_decodeText_eq_error_iff.mpr (forall_not_encodes_iff.mpr h)
      exact ⟨.undecodable failure, by rw [ofBytes, hf], rfl⟩
    | unusable htext hload => exact ⟨_, ofBytes_of_unusable htext hload, rfl⟩
    | unlistable hv hes hkey =>
      exact hmistaken hv hes (exists_mistake_untold_iff.mpr (Or.inl hkey))
    | unshown hv hes hm hw hshow =>
      exact hmistaken hv hes (exists_mistake_untold_iff.mpr (Or.inr ⟨_, _, hm, hw, hshow⟩))

/-! ### Failures with a message -/

/-- **A message that is located names the file.** -/
theorem path_infix_located (path message : String) :
    path.toList <:+: (located path message).toList := by
  rw [located]
  split
  · rename_i hoccurs
    exact Text.occurs_iff.mp hoccurs
  · exact ⟨[], (": " ++ message).toList, by simp⟩

/-- **A message names the file.** -/
theorem path_infix_message {failure : LoadFailure} {message : String}
    (hf : ofBytes loader path bytes = .error failure)
    (hmessage : failure.message? fits = some message) : path.toList <:+: message.toList := by
  have h := gives_ofBytes loader path bytes
  generalize hr : ofBytes loader path bytes = r at h
  cases h with
  | undecodable h =>
    obtain rfl := Except.error.inj (hr.symm.trans hf)
    exact absurd hmessage (by simp [LoadFailure.message?])
  | unusable htext hload =>
    obtain rfl := Except.error.inj (hr.symm.trans hf)
    exact absurd hmessage (by simp [LoadFailure.message?])
  | @malformed text reason htext hload =>
    obtain rfl := Except.error.inj (hr.symm.trans hf)
    obtain rfl := Option.some.inj hmessage
    exact ⟨"Invalid YAML in ".toList, (": " ++ reason).toList, by simp⟩
  | empty hv hempty => exact absurd (hr.symm.trans hf) (by simp)
  | mapping hv hes =>
    obtain ⟨m, hm, rfl⟩ := mapError_eq_error_iff.mp (hr.symm.trans hf)
    obtain ⟨told, -, rfl⟩ := Option.map_eq_some_iff.mp hmessage
    exact path_infix_located path told
  | notMapping hv hempty hes =>
    obtain rfl := Except.error.inj (hr.symm.trans hf)
    obtain rfl := Option.some.inj hmessage
    exact ⟨"YAML must be a mapping: ".toList, [], by simp⟩

end Settings

end MiniTemplate
