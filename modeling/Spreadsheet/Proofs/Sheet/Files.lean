import Spreadsheet.Proofs.Json.Numerals
import Spreadsheet.Proofs.Sheet.Obtained
import Spreadsheet.Proofs.Text.Utf8
import Spreadsheet.Sheet.File
import Spreadsheet.Yaml.Reading

/-! # Sheet files that are loaded

A sheet file gives a valid sheet or a failure that is reported as one of the file, except for four
things (`Escapes`): a null character in the name, octets that are no UTF-8, an integer in JSON with
more digits than can be read, and well-formed YAML that the parser does not take (`load_reported`).
This holds for every parser of YAML that rejects malformed text (`Yaml.RejectsMalformed`). -/

namespace Spreadsheet

/-- **Malformed text is rejected** by a parser of YAML, with the failure that it has for this. -/
def Yaml.RejectsMalformed (yaml : Yaml.Parser) (IsYaml : List Char → Prop) : Prop :=
  ∀ cs, ¬ IsYaml cs → yaml cs = .error .malformed

namespace Sheet

/-! ### What a file holds -/

variable {yaml : Yaml.Parser} {IsYaml : List Char → Prop} {path : String} {cs : List Char} {k : Nat}
  {e : LoadError}

/-- Data that are no sheet are reported. -/
theorem isReported_of_ofWire {data : Value} (h : ofWire data = .error e) : e.isReported = true := by
  unfold ofWire at h
  split at h
  · split at h
    split at h
    · cases h
    · cases h
      rfl
  · cases h
    rfl

theorem isReported_of_ofData {data : Yaml.Data} (h : ofData data = .error e) :
    e.isReported = true := by
  unfold ofData at h
  split at h
  · exact isReported_of_ofWire h
  · cases h
    rfl

theorem keyed_of_ofData {data : Yaml.Data} {s : Sheet} (h : ofData data = .ok s) : s.Keyed := by
  unfold ofData at h
  split at h
  · exact keyed_of_ofWire h
  · cases h

theorem ofJson_numeralTooLong_iff :
    ofJson path cs = .error (.numeralTooLong k) ↔ Json.MeetsLong (.value []) cs k := by
  rw [← Json.read_numeralTooLong_iff, ofJson]
  cases Json.read cs with
  | ok data =>
    refine iff_of_false (fun h => ?_) (by simp)
    cases isReported_of_ofWire h
  | error e => cases e <;> simp

/-- A text in JSON is a sheet, or what is wrong with it is reported, but for a long numeral. -/
theorem ofJson_cases (path : String) (cs : List Char) : (∃ s, ofJson path cs = .ok s ∧ s.Keyed) ∨
    ∃ e, ofJson path cs = .error e ∧
      (e.isReported = true ∨ ∃ k, e = .numeralTooLong k ∧ Json.MeetsLong (.value []) cs k) := by
  cases hsheet : ofJson path cs with
  | ok s =>
    unfold ofJson at hsheet
    split at hsheet
    · exact .inl ⟨s, rfl, keyed_of_ofWire hsheet⟩
    · cases hsheet
    · cases hsheet
  | error e =>
    refine .inr ⟨e, rfl, ?_⟩
    have hjson := hsheet
    unfold ofJson at hsheet
    split at hsheet
    · exact .inl (isReported_of_ofWire hsheet)
    · cases hsheet
      exact .inl rfl
    · cases hsheet
      exact .inr ⟨_, rfl, ofJson_numeralTooLong_iff.mp hjson⟩

/-- A text in YAML is a sheet, or what is wrong with it is reported, but for an exception that the
parser raises in its own way. -/
theorem ofYaml_cases (yaml : Yaml.Parser) (path : String) (cs : List Char) :
    (∃ s, ofYaml yaml path cs = .ok s ∧ s.Keyed) ∨
      ∃ e, ofYaml yaml path cs = .error e ∧ (e.isReported = true ∨ ∃ exception text,
        e = .raised exception text ∧ yaml cs = .error (.raised exception text)) := by
  unfold ofYaml
  cases hdata : yaml cs with
  | ok data =>
    cases hsheet : ofData data with
    | ok s => exact .inl ⟨s, hsheet, keyed_of_ofData hsheet⟩
    | error e => exact .inr ⟨e, hsheet, .inl (isReported_of_ofData hsheet)⟩
  | error e =>
    cases e with
    | malformed => exact .inr ⟨_, rfl, .inl rfl⟩
    | raised exception text => exact .inr ⟨_, rfl, .inr ⟨exception, text, rfl, rfl⟩⟩

/-! ### Loading -/

/-- **What no caller foresees**: a null character in the name of a file, octets that are no
characters, a numeral in JSON that is too long, and text that is YAML but makes the parser raise
another exception than the one for malformed text. -/
inductive Escapes (yaml : Yaml.Parser) (IsYaml : List Char → Prop) (path : String) :
    Option (List UInt8) → NotLoaded → Prop
  | null {content : Option (List UInt8)} (h : '\x00' ∈ path.toList) :
    Escapes yaml IsYaml path content .nullInName
  | octets {octets : List UInt8} (hpath : '\x00' ∉ path.toList) (h : ∀ cs, octets ≠ Utf8.encode cs) :
    Escapes yaml IsYaml path (some octets) (.file .notText)
  | numeral {cs : List Char} {k : Nat} (hpath : '\x00' ∉ path.toList) (hjson : isJsonPath path = true)
      (h : Json.MeetsLong (.value []) cs k) :
    Escapes yaml IsYaml path (some (Utf8.encode cs)) (.file (.numeralTooLong k))
  | raised {cs : List Char} {exception text : String} (hpath : '\x00' ∉ path.toList)
      (hyaml : isJsonPath path = false) (hcs : IsYaml cs)
      (h : yaml cs = .error (.raised exception text)) :
    Escapes yaml IsYaml path (some (Utf8.encode cs)) (.file (.raised exception text))

theorem load_encode (hpath : '\x00' ∉ path.toList) (cs : List Char) :
    load yaml path (some (Utf8.encode cs)) =
      (if isJsonPath path then ofJson path cs else ofYaml yaml path cs).mapError .file := by
  rw [load, if_neg hpath, ofFile, Utf8.decode_eq_some_iff.mpr rfl]

/-- **What no caller foresees** happens, and is not reported. -/
theorem Escapes.load {content : Option (List UInt8)} {e : NotLoaded}
    (h : Escapes yaml IsYaml path content e) :
    load yaml path content = .error e ∧ e.isReported = false := by
  cases h with
  | null h => exact ⟨if_pos h, rfl⟩
  | octets hpath h =>
    rw [Sheet.load, if_neg hpath, ofFile, Utf8.decode_eq_none_iff.mpr h]
    exact ⟨rfl, rfl⟩
  | numeral hpath hjson h =>
    rw [load_encode hpath, if_pos hjson, ofJson_numeralTooLong_iff.mpr h]
    exact ⟨rfl, rfl⟩
  | raised hpath hyaml _ h =>
    rw [load_encode hpath, if_neg (by simp [hyaml]), ofYaml, h]
    exact ⟨rfl, rfl⟩

/-- **A file is loaded** as a valid sheet, or it fails with a report or as no caller foresees. -/
theorem load_cases (hyaml : Yaml.RejectsMalformed yaml IsYaml) (path : String)
    (content : Option (List UInt8)) : (∃ s, load yaml path content = .ok s ∧ s.Keyed) ∨
      ∃ e, load yaml path content = .error e ∧
        (e.isReported = true ∨ Escapes yaml IsYaml path content e) := by
  by_cases hpath : '\x00' ∈ path.toList
  · exact .inr ⟨_, if_pos hpath, .inr (.null hpath)⟩
  cases content with
  | none => exact .inr ⟨_, if_neg hpath, .inl rfl⟩
  | some octets =>
    by_cases hoctets : ∃ cs, octets = Utf8.encode cs
    · obtain ⟨cs, rfl⟩ := hoctets
      rw [load_encode hpath]
      by_cases hjson : isJsonPath path = true
      · rw [if_pos hjson]
        obtain ⟨s, hs, hkeyed⟩ | ⟨e, he, hreported | ⟨k, rfl, hlong⟩⟩ := ofJson_cases path cs
        · exact .inl ⟨s, by rw [hs]; rfl, hkeyed⟩
        · exact .inr ⟨.file e, by rw [he]; rfl, .inl hreported⟩
        · exact .inr ⟨_, by rw [he]; rfl, .inr (.numeral hpath hjson hlong)⟩
      · rw [if_neg hjson]
        obtain ⟨s, hs, hkeyed⟩ | ⟨e, he, hreported | ⟨exception, text, rfl, hraised⟩⟩ :=
          ofYaml_cases yaml path cs
        · exact .inl ⟨s, by rw [hs]; rfl, hkeyed⟩
        · exact .inr ⟨.file e, by rw [he]; rfl, .inl hreported⟩
        · have hcs : IsYaml cs := by
            by_contra hcs
            rw [hyaml cs hcs] at hraised
            cases hraised
          have hescapes := Escapes.raised hpath (Bool.eq_false_iff.mpr hjson) hcs hraised
          exact .inr ⟨_, by rw [he]; rfl, .inr hescapes⟩
    · have hescapes : Escapes yaml IsYaml path (some octets) (.file .notText) :=
        .octets hpath fun cs h => hoctets ⟨cs, h⟩
      exact .inr ⟨_, hescapes.load.1, .inr hescapes⟩

/-- **A sheet file gives a valid sheet or a failure that is reported**, unless there is something that
no caller foresees; exactly then it fails with that. Malformed text is always reported. -/
theorem load_reported (yaml : Yaml.Parser) (IsYaml : List Char → Prop)
    (hyaml : Yaml.RejectsMalformed yaml IsYaml) (path : String) (content : Option (List UInt8)) :
    (((∃ s, load yaml path content = .ok s ∧ s.Keyed) ∨
        ∃ e, load yaml path content = .error e ∧ e.isReported = true) ↔
      ∀ e, ¬ Escapes yaml IsYaml path content e) ∧
    ∀ e, Escapes yaml IsYaml path content e ↔
      load yaml path content = .error e ∧ e.isReported = false := by
  have hescapes : ∀ e, Escapes yaml IsYaml path content e ↔
      load yaml path content = .error e ∧ e.isReported = false := fun e => by
    refine ⟨Escapes.load, fun ⟨hload, hreported⟩ => ?_⟩
    obtain ⟨s, hs, -⟩ | ⟨e', he', hcases⟩ := load_cases hyaml path content
    · rw [hload] at hs
      cases hs
    · obtain rfl : e = e' := Except.error.inj (hload.symm.trans he')
      exact hcases.resolve_left (by simp [hreported])
  refine ⟨⟨?_, fun hno => ?_⟩, hescapes⟩
  · rintro (⟨s, hs, -⟩ | ⟨e, he, hreported⟩) e' h
    · rw [h.load.1] at hs
      cases hs
    · obtain rfl : e' = e := Except.error.inj (h.load.1.symm.trans he)
      rw [h.load.2] at hreported
      cases hreported
  · obtain hvalid | ⟨e, he, hreported | h⟩ := load_cases hyaml path content
    · exact .inl hvalid
    · exact .inr ⟨e, he, hreported⟩
    · exact absurd h (hno e)

/-- A text of which the reader of a part of YAML makes no node is malformed to it. -/
theorem rejectsMalformed_read : Yaml.RejectsMalformed Yaml.read fun cs => (Yaml.node? cs).isSome :=
  fun cs hcs => by rw [Yaml.read, Option.not_isSome_iff_eq_none.mp hcs]

/-- The prefix of a numeral in base 16 with an underscore and no digit is YAML, but no number. -/
theorem load_reported_prefix :
    Yaml.RejectsMalformed Yaml.read (fun cs => (Yaml.node? cs).isSome) ∧
      Escapes Yaml.read (fun cs => (Yaml.node? cs).isSome) "s.yaml" (some [0x30, 0x78, 0x5f])
        (.file (.raised "ValueError" "invalid literal for int() with base 16: ''")) ∧
      ¬ ((∃ s, load Yaml.read "s.yaml" (some [0x30, 0x78, 0x5f]) = .ok s ∧ s.Keyed) ∨
        ∃ e, load Yaml.read "s.yaml" (some [0x30, 0x78, 0x5f]) = .error e ∧
          e.isReported = true) := by
  obtain ⟨hvalid, hescapes⟩ := load_reported Yaml.read _ rejectsMalformed_read "s.yaml"
    (some [0x30, 0x78, 0x5f])
  have hload : load Yaml.read "s.yaml" (some [0x30, 0x78, 0x5f]) = .error
      (.file (.raised "ValueError" "invalid literal for int() with base 16: ''")) := by
    rw [load, if_neg (by decide)]
    rfl
  have hescape := (hescapes _).mpr ⟨hload, rfl⟩
  exact ⟨rejectsMalformed_read, hescape, fun h => hvalid.mp h _ hescape⟩

/-- A file that breaks off inside a text, with an octet that is no UTF-8, is not reported, whatever
parser there is for YAML. -/
theorem not_always_reported : ¬ ∃ yaml : Yaml.Parser, ∀ path content,
    (∃ s, load yaml path content = .ok s ∧ s.Keyed) ∨
      ∃ e, load yaml path content = .error e ∧ e.isReported = true := by
  rintro ⟨yaml, h⟩
  have hload : load yaml "s.json" (some [0x7b, 0x22, 0xff]) = .error (.file .notText) := by
    rw [load, if_neg (by decide)]
    rfl
  obtain ⟨s, hs, -⟩ | ⟨e, he, hreported⟩ := h "s.json" (some [0x7b, 0x22, 0xff])
  · rw [hload] at hs
    cases hs
  · obtain rfl := Except.error.inj (hload.symm.trans he)
    cases hreported

end Sheet

end Spreadsheet
