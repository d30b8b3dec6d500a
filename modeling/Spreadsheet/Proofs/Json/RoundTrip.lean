import Spreadsheet.Json.Reading
import Spreadsheet.Json.Writing
import Spreadsheet.Proofs.Json.Tokens
import Mathlib.Data.List.Forall2

/-! # Data in JSON read back

Data are scalars, lists and maps from texts, each text a key once, with integers that have a numeral
(`Data`). They are written on one line of printable ASCII, and the line is read as the same data with
the entries of each map in the order of their keys (`Data.exists_line`).

A text denotes a value if the reader completes the value with it in every place where a value may
come (`Denotes`); what is written denotes what it was written for, by induction on the data. -/

namespace Spreadsheet

/-! ### Sorted lists side by side -/

/-- Lists whose items correspond are sorted alike. -/
theorem forall₂_mergeSort {α β : Type} {R : α → β → Prop} {r : α → α → Bool} {s : β → β → Bool}
    (hrs : ∀ a b a' b', R a b → R a' b' → r a a' = s b b') {l : List α} {k : List β}
    (h : List.Forall₂ R l k) : List.Forall₂ R (l.mergeSort r) (k.mergeSort s) := by
  obtain ⟨hlength, hzip⟩ := List.forall₂_iff_zip.mp h
  obtain ⟨z, hz⟩ : ∃ z, z = (l.zip k).mergeSort fun a b => r a.1 b.1 := ⟨_, rfl⟩
  have hmem : ∀ x ∈ z, R x.1 x.2 := fun x hx => by
    rw [hz, List.mem_mergeSort] at hx
    exact hzip hx
  have hleft : z.map Prod.fst = l.mergeSort r := by
    rw [hz, List.map_mergeSort (s := r) (fun _ _ _ _ => rfl), List.map_fst_zip hlength.le]
  have hright : z.map Prod.snd = k.mergeSort s := by
    rw [hz, List.map_mergeSort (s := s) (fun a ha b hb => hrs _ _ _ _ (hzip ha) (hzip hb)),
      List.map_snd_zip hlength.ge]
  rw [← hleft, ← hright, List.forall₂_map_left_iff, List.forall₂_map_right_iff, List.forall₂_same]
  exact hmem

namespace Json

/-! ### Data -/

/-- A scalar that can be written: no integer with too many digits. -/
def Writable (v : Scalar) : Prop :=
  ∀ n, v = .int n → n.natAbs < Decimal.powerOfTen numeralLimit

/-- **Data that can be kept in JSON.** -/
inductive Data : Value → Prop
  | scalar {v : Scalar} (h : Writable v) : Data (.scalar v)
  | list {items : List Value} (h : ∀ v ∈ items, Data v) : Data (.list items)
  | map {fields : List (String × Value)} (hkeys : (fields.map Prod.fst).Nodup)
      (h : ∀ field ∈ fields, Data field.2) : Data (.ofFields fields)

/-- The text that a key is written as. -/
def keyText : Scalar → String
  | .text s => s
  | _ => ""

mutual

/-- A value with the entries of its maps in the order of their keys. -/
def sorted : Value → Value
  | .scalar v => .scalar v
  | .list items => .list (sortedItems items)
  | .map entries =>
    .map ((sortedEntries entries).mergeSort fun a b => decide (keyText a.1 ≤ keyText b.1))

def sortedItems : List Value → List Value
  | [] => []
  | v :: rest => sorted v :: sortedItems rest

def sortedEntries : List (Scalar × Value) → List (Scalar × Value)
  | [] => []
  | (k, v) :: rest => (k, sorted v) :: sortedEntries rest

end

theorem sortedEntries_eq (entries : List (Scalar × Value)) :
    sortedEntries entries = entries.map fun (k, v) => (k, sorted v) := by
  induction entries with
  | nil => rfl
  | cons x rest ih => rw [sortedEntries, ih, List.map_cons]

/-! ### Texts of values -/

/-- A state in which a value may come, with the frames that it comes into. -/
inductive Opens : State → List Frame → Prop
  | value (frames : List Frame) : Opens (.value frames) frames
  | firstItem (frames : List Frame) : Opens (.firstItem frames) (.list [] :: frames)

theorem Opens.step {s s' : State} {frames : List Frame} {t : Token} (h : Opens s frames)
    (ht : State.begin frames t = .ok s') : s.step t = .ok s' := by
  cases h with
  | value => exact ht
  | firstItem =>
    -- Only a closing bracket is taken otherwise, and no value begins with one.
    cases t with
    | closeList => cases ht
    | _ => exact ht

/-- **A text denotes a value**: it is printable, and wherever a value may come it completes it. -/
structure Denotes (text : List Char) (v : Value) : Prop where
  printable : ∀ c ∈ text, IsPrintable c
  reads : ∀ {s frames}, Opens s frames → ∀ {rest}, Ends rest →
    readFrom 0 s (text ++ rest) = readFrom 0 (State.complete v frames) rest

theorem denotes_scalar {v : Scalar} {s : String} (h : scalar v = .ok s) :
    Denotes s.toList (.scalar v) := by
  obtain ⟨t, hspells, hbegin⟩ := scalar_spells h
  exact ⟨hspells.printable, fun hopens _ hrest => hspells.readFrom hrest (hopens.step (hbegin _))⟩

/-! ### Items between brackets -/

/-- Every item with the separator before it. -/
def separated (texts : List (List Char)) : List Char :=
  texts.flatMap (", ".toList ++ ·)

theorem separated_cons (text : List Char) (texts : List (List Char)) (rest : List Char) :
    separated (text :: texts) ++ rest = ", ".toList ++ (text ++ (separated texts ++ rest)) := by
  simp only [separated, List.flatMap_cons, List.append_assoc]

/-- What stands after an item goes on with no number. -/
theorem ends_separated {closing : Char}
    (h : Decimal.isAsciiDigit closing = false ∧ closing ∉ ['.', 'e', 'E'])
    (texts : List (List Char)) (rest : List Char) : Ends (separated texts ++ closing :: rest) := by
  cases texts with
  | nil => exact ends_cons h rest
  | cons text texts => exact ends_cons (by decide) _

theorem intercalate_cons (text : List Char) (texts : List (List Char)) :
    ", ".toList.intercalate (text :: texts) = text ++ separated texts := by
  induction texts generalizing text with
  | nil => simp [List.intercalate, separated]
  | cons next texts ih =>
    have hnext := separated_cons next texts []
    rw [List.append_nil, List.append_nil] at hnext
    rw [List.intercalate_cons_cons, ih, hnext, List.append_assoc]

/-- On one line, items stand between brackets with separators between them. -/
theorem toList_bracket (depth : Nat) (opening closing : String) (text : String)
    (texts : List String) : (compact.bracket depth opening closing (text :: texts)).toList
      = opening.toList ++ (text.toList ++ (separated (texts.map String.toList) ++ closing.toList)) := by
  have hlead : ∀ depth, compact.lead depth = "" := fun _ => rfl
  have hseparator : compact.separator = ", " := rfl
  unfold Layout.bracket
  rw [hlead, hlead, hseparator]
  simp only [List.isEmpty_cons, Bool.false_eq_true, if_false, String.append_empty,
    String.toList_append, String.toList_intercalate, List.map_cons, intercalate_cons,
    List.append_assoc]

theorem isPrintable_bracket {opening closing : String} {texts : List String}
    (hopening : ∀ c ∈ opening.toList, IsPrintable c) (hclosing : ∀ c ∈ closing.toList, IsPrintable c)
    (h : ∀ text ∈ texts, ∀ c ∈ text.toList, IsPrintable c) (depth : Nat) :
    ∀ c ∈ (compact.bracket depth opening closing texts).toList, IsPrintable c := by
  cases texts with
  | nil =>
    show ∀ c ∈ (opening ++ closing).toList, IsPrintable c
    rw [String.toList_append]
    exact List.forall_mem_append.mpr ⟨hopening, hclosing⟩
  | cons text texts =>
    obtain ⟨htext, htexts⟩ := List.forall_mem_cons.mp h
    have hseparator : ∀ c ∈ ", ".toList, IsPrintable c := isPrintable_of_all (by decide)
    have hseparated : ∀ c ∈ separated (texts.map String.toList), IsPrintable c := fun c hc => by
      obtain ⟨_, hmem, hc⟩ := List.mem_flatMap.mp hc
      obtain ⟨t, ht, rfl⟩ := List.mem_map.mp hmem
      exact (List.mem_append.mp hc).elim (hseparator c) (htexts t ht c)
    rw [toList_bracket]
    simp only [List.forall_mem_append]
    exact ⟨hopening, htext, hseparated, hclosing⟩

/-! ### Lists -/

theorem readFrom_items {texts : List (List Char)} {items : List Value}
    (h : List.Forall₂ Denotes texts items) (met : List Value) (frames : List Frame)
    (rest : List Char) : readFrom 0 (.afterItem met frames) (separated texts ++ ']' :: rest)
      = readFrom 0 (State.complete (.list (met.reverse ++ items)) frames) rest := by
  induction h generalizing met with
  | nil =>
    rw [List.append_nil]
    exact readFrom_mark (fun _ => rfl) rfl rfl rest
  | @cons text v texts items hv _ ih =>
    have hnext : Ends (separated texts ++ ']' :: rest) := ends_separated (by decide) _ _
    calc readFrom 0 (.afterItem met frames) (separated (text :: texts) ++ ']' :: rest)
        = readFrom 0 (.value (.list met :: frames)) (text ++ (separated texts ++ ']' :: rest)) := by
          rw [separated_cons]
          rfl
      _ = readFrom 0 (.afterItem (v :: met) frames) (separated texts ++ ']' :: rest) :=
          hv.reads (.value _) hnext
      _ = readFrom 0 (State.complete (.list ((v :: met).reverse ++ items)) frames) rest := ih _
      _ = readFrom 0 (State.complete (.list (met.reverse ++ v :: items)) frames) rest := by
          rw [List.reverse_cons, List.append_assoc, List.singleton_append]

theorem isPrintable_of_denotes {texts : List String} {items : List Value}
    (h : List.Forall₂ (fun text v => Denotes text.toList v) texts items) :
    ∀ text ∈ texts, ∀ c ∈ text.toList, IsPrintable c := by
  induction h with
  | nil => simp
  | cons hv _ ih => exact List.forall_mem_cons.mpr ⟨hv.printable, ih⟩

/-- **A list** of denoted items. -/
theorem denotes_list {texts : List String} {items : List Value}
    (h : List.Forall₂ (fun text v => Denotes text.toList v) texts items) (depth : Nat) :
    Denotes (compact.bracket depth "[" "]" texts).toList (.list items) where
  printable := isPrintable_bracket (isPrintable_of_all (by decide))
    (isPrintable_of_all (by decide)) (isPrintable_of_denotes h) depth
  reads {s frames} hopens {rest} _ := by
    have hopen : ∀ more, readFrom 0 s ('[' :: more) = readFrom 0 (.firstItem frames) more :=
      readFrom_mark (fun _ => rfl) rfl (hopens.step rfl)
    cases h with
    | nil =>
      show readFrom 0 s (("[" ++ "]").toList ++ rest) = _
      rw [String.toList_append]
      exact (hopen _).trans (readFrom_mark (c := ']') (fun _ => rfl) rfl rfl rest)
    | @cons text v texts items hv hitems =>
      have hnext : Ends (separated (texts.map String.toList) ++ ']' :: rest) :=
        ends_separated (by decide) _ _
      have htexts : List.Forall₂ Denotes (texts.map String.toList) items :=
        List.forall₂_map_left_iff.mpr hitems
      rw [toList_bracket, List.append_assoc, List.append_assoc, List.append_assoc]
      calc readFrom 0 s ('[' :: (text.toList ++ (separated (texts.map String.toList) ++ ']' :: rest)))
          = readFrom 0 (.firstItem frames)
            (text.toList ++ (separated (texts.map String.toList) ++ ']' :: rest)) := hopen _
        _ = readFrom 0 (.afterItem [v] frames) (separated (texts.map String.toList) ++ ']' :: rest) :=
            hv.reads (.firstItem _) hnext
        _ = readFrom 0 (State.complete (.list (v :: items)) frames) rest :=
            readFrom_items htexts [v] frames rest

/-! ### Maps -/

/-- The text of an entry, which denotes its value after its key. -/
def DenotesEntry (text : List Char) (field : String × Value) : Prop :=
  ∃ t, text = (textLiteral field.1).toList ++ (": ".toList ++ t) ∧ Denotes t field.2

theorem DenotesEntry.printable {text : List Char} {field : String × Value}
    (h : DenotesEntry text field) : ∀ c ∈ text, IsPrintable c := by
  obtain ⟨t, htext, ht⟩ := h
  have hcolon : ∀ c ∈ ": ".toList, IsPrintable c := isPrintable_of_all (by decide)
  simp only [htext, List.forall_mem_append]
  exact ⟨isPrintable_textLiteral _, hcolon, ht.printable⟩

theorem denotesEntry_append {k t : String} {v : Value} (h : Denotes t.toList v) :
    DenotesEntry (textLiteral k ++ ": " ++ t).toList (k, v) := by
  refine ⟨t.toList, ?_, h⟩
  rw [String.toList_append, String.toList_append, List.append_assoc]

/-- A state in which a key may come, with the entries before it. -/
inductive OpensKey : State → List (Scalar × Value) → List Frame → Prop
  | firstKey (frames : List Frame) : OpensKey (.firstKey frames) [] frames
  | key (entries : List (Scalar × Value)) (frames : List Frame) :
      OpensKey (.key entries frames) entries frames

theorem DenotesEntry.reads {text : List Char} {field : String × Value} (h : DenotesEntry text field)
    {s : State} {entries : List (Scalar × Value)} {frames : List Frame}
    (hopens : OpensKey s entries frames) {rest : List Char} (hrest : Ends rest) :
    readFrom 0 s (text ++ rest)
      = readFrom 0 (.afterEntry ((.text field.1, field.2) :: entries) frames) rest := by
  obtain ⟨t, htext, ht⟩ := h
  have hstep : s.step (.text field.1) = .ok (.colon entries field.1 frames) := by
    cases hopens <;> rfl
  rw [htext, List.append_assoc, List.append_assoc]
  calc readFrom 0 s ((textLiteral field.1).toList ++ (": ".toList ++ (t ++ rest)))
      = readFrom 0 (.colon entries field.1 frames) (": ".toList ++ (t ++ rest)) :=
        (spells_textLiteral field.1).readFrom (ends_cons (by decide) _) hstep
    _ = readFrom 0 (.value (.map entries field.1 :: frames)) (t ++ rest) := rfl
    _ = readFrom 0 (.afterEntry ((.text field.1, field.2) :: entries) frames) rest :=
        ht.reads (.value _) hrest

theorem readFrom_entries {texts : List (List Char)} {fields : List (String × Value)}
    (h : List.Forall₂ DenotesEntry texts fields) (met : List (Scalar × Value)) (frames : List Frame)
    (rest : List Char) : readFrom 0 (.afterEntry met frames) (separated texts ++ '\x7d' :: rest)
      = readFrom 0 (State.complete (.map (Value.mapOfList
          (met.reverse ++ fields.map fun (k, v) => (.text k, v)))) frames) rest := by
  induction h generalizing met with
  | nil =>
    rw [List.map_nil, List.append_nil]
    exact readFrom_mark (fun _ => rfl) rfl rfl rest
  | @cons text field texts fields hfield _ ih =>
    have hnext : Ends (separated texts ++ '\x7d' :: rest) := ends_separated (by decide) _ _
    calc readFrom 0 (.afterEntry met frames) (separated (text :: texts) ++ '\x7d' :: rest)
        = readFrom 0 (.key met frames) (text ++ (separated texts ++ '\x7d' :: rest)) := by
          rw [separated_cons]
          rfl
      _ = readFrom 0 (.afterEntry ((.text field.1, field.2) :: met) frames)
          (separated texts ++ '\x7d' :: rest) := hfield.reads (.key _ _) hnext
      _ = _ := by
          rw [ih, List.reverse_cons, List.append_assoc, List.singleton_append, List.map_cons]

theorem insertBy_of_forall {κ α : Type} {same : κ → κ → Bool} {key : κ} {value : α}
    {m : OrderedMap κ α} (h : ∀ x ∈ m, same x.1 key = false) :
    OrderedMap.insertBy same key value m = m ++ [(key, value)] := by
  induction m with
  | nil => rfl
  | cons x m ih =>
    obtain ⟨hx, hm⟩ := List.forall_mem_cons.mp h
    rw [OrderedMap.insertBy, hx, ih hm]
    rfl

/-- Entries with distinct texts as keys are a map as they stand. -/
theorem mapOfList_fields {fields : List (String × Value)} (h : (fields.map Prod.fst).Nodup) :
    Value.mapOfList (fields.map fun (k, v) => (.text k, v))
      = fields.map fun (k, v) => (.text k, v) := by
  induction fields using List.reverseRecOn with
  | nil => rfl
  | append_singleton fields field ih =>
    obtain ⟨k, v⟩ := field
    rw [List.map_append, List.nodup_append] at h
    obtain ⟨hfields, -, hnot⟩ := h
    have hnew : ∀ x ∈ fields.map fun (k, v) => (Scalar.text k, v),
        x.1.sameKey (.text k) = false := fun x hx => by
      obtain ⟨⟨k', v'⟩, hmem, rfl⟩ := List.mem_map.mp hx
      have hne : k' ≠ k := hnot k' (List.mem_map.mpr ⟨_, hmem, rfl⟩) k (by simp)
      simpa [Scalar.sameKey, Scalar.number?] using hne
    have ih := ih hfields
    unfold Value.mapOfList at ih ⊢
    rw [List.map_append, List.foldl_append, ih]
    exact insertBy_of_forall hnew

theorem isPrintable_of_denotesEntry {texts : List String} {fields : List (String × Value)}
    (h : List.Forall₂ (fun text field => DenotesEntry text.toList field) texts fields) :
    ∀ text ∈ texts, ∀ c ∈ text.toList, IsPrintable c := by
  induction h with
  | nil => simp
  | cons hfield _ ih => exact List.forall_mem_cons.mpr ⟨hfield.printable, ih⟩

/-- **A map** of denoted entries. -/
theorem denotes_map {texts : List String} {fields : List (String × Value)}
    (hkeys : (fields.map Prod.fst).Nodup)
    (h : List.Forall₂ (fun text field => DenotesEntry text.toList field) texts fields) (depth : Nat) :
    Denotes (compact.bracket depth "\x7b" "\x7d" texts).toList (.ofFields fields) where
  printable := isPrintable_bracket (isPrintable_of_all (by decide))
    (isPrintable_of_all (by decide)) (isPrintable_of_denotesEntry h) depth
  reads {s frames} hopens {rest} _ := by
    have hopen : ∀ more, readFrom 0 s ('\x7b' :: more) = readFrom 0 (.firstKey frames) more :=
      readFrom_mark (fun _ => rfl) rfl (hopens.step rfl)
    cases h with
    | nil =>
      show readFrom 0 s (("\x7b" ++ "\x7d").toList ++ rest) = _
      rw [String.toList_append]
      exact (hopen _).trans (readFrom_mark (c := '\x7d') (fun _ => rfl) rfl rfl rest)
    | @cons text field texts fields hfield hfields =>
      have hnext : Ends (separated (texts.map String.toList) ++ '\x7d' :: rest) :=
        ends_separated (by decide) _ _
      have htexts : List.Forall₂ DenotesEntry (texts.map String.toList) fields :=
        List.forall₂_map_left_iff.mpr hfields
      rw [toList_bracket, List.append_assoc, List.append_assoc, List.append_assoc]
      calc readFrom 0 s ('\x7b' ::
            (text.toList ++ (separated (texts.map String.toList) ++ '\x7d' :: rest)))
          = readFrom 0 (.firstKey frames)
            (text.toList ++ (separated (texts.map String.toList) ++ '\x7d' :: rest)) := hopen _
        _ = readFrom 0 (.afterEntry [(.text field.1, field.2)] frames)
            (separated (texts.map String.toList) ++ '\x7d' :: rest) :=
            hfield.reads (.firstKey _) hnext
        _ = readFrom 0 (State.complete (.map (Value.mapOfList
              ((field :: fields).map fun (k, v) => (.text k, v)))) frames) rest :=
            readFrom_entries htexts _ frames rest
        _ = readFrom 0 (State.complete (.ofFields (field :: fields)) frames) rest := by
            rw [mapOfList_fields hkeys, Value.ofFields]

/-! ### Writing and reading -/

theorem exists_scalar {v : Scalar} (h : Writable v) : ∃ s, scalar v = .ok s := by
  cases v with
  | null => exact ⟨_, rfl⟩
  | bool b => exact ⟨_, rfl⟩
  | text s => exact ⟨_, rfl⟩
  | number n =>
    cases n with
    | int n =>
      refine ⟨toString n, ?_⟩
      simp only [scalar, bare, number, Number.shown, Numeral.write, if_pos (h n rfl)]
    | float x => cases x <;> exact ⟨_, rfl⟩

theorem exists_writeItems {items : List Value}
    (h : ∀ v ∈ items, ∀ depth, ∃ t, compact.write depth v = .ok t ∧ Denotes t.toList (sorted v))
    (depth : Nat) : ∃ texts, compact.writeItems depth items = .ok texts ∧
      List.Forall₂ (fun text v => Denotes text.toList v) texts (sortedItems items) := by
  induction items with
  | nil => exact ⟨[], rfl, .nil⟩
  | cons v items ih =>
    obtain ⟨hv, hitems⟩ := List.forall_mem_cons.mp h
    obtain ⟨t, hwrite, ht⟩ := hv depth
    obtain ⟨texts, hwrites, htexts⟩ := ih hitems
    refine ⟨t :: texts, ?_, .cons ht htexts⟩
    rw [Layout.writeItems, hwrite, hwrites]
    rfl

theorem exists_writeEntries {fields : List (String × Value)}
    (h : ∀ x ∈ fields, ∀ depth, ∃ t, compact.write depth x.2 = .ok t ∧ Denotes t.toList (sorted x.2))
    (depth : Nat) : ∃ written,
      compact.writeEntries depth (fields.map fun (k, v) => (.text k, v)) = .ok written ∧
      List.Forall₂ (fun w field => w.1 = field.1 ∧ Denotes w.2.toList field.2) written
        (fields.map fun (k, v) => (k, sorted v)) := by
  induction fields with
  | nil => exact ⟨[], rfl, .nil⟩
  | cons x fields ih =>
    obtain ⟨hx, hfields⟩ := List.forall_mem_cons.mp h
    obtain ⟨t, hwrite, ht⟩ := hx depth
    obtain ⟨written, hwrites, hwritten⟩ := ih hfields
    refine ⟨(x.1, t) :: written, ?_, .cons ⟨rfl, ht⟩ hwritten⟩
    rw [List.map_cons, Layout.writeEntries, hwrite, hwrites]
    rfl

/-- Fields in the order of their keys. -/
def sortedFields (fields : List (String × Value)) : List (String × Value) :=
  (fields.map fun (k, v) => (k, sorted v)).mergeSort fun a b => decide (a.1 ≤ b.1)

theorem sorted_ofFields (fields : List (String × Value)) :
    sorted (.ofFields fields) = .ofFields (sortedFields fields) := by
  have hsort := List.map_mergeSort (l := fields.map fun x => (x.1, sorted x.2))
    (f := fun x : String × Value => (Scalar.text x.1, x.2)) (r := fun a b => decide (a.1 ≤ b.1))
    (s := fun a b => decide (keyText a.1 ≤ keyText b.1)) (by intro a _ b _; rw [keyText, keyText])
  rw [Value.ofFields, sorted, sortedEntries_eq, List.map_map]
  rw [List.map_map] at hsort
  exact congrArg Value.map hsort.symm

theorem keys_sortedFields (fields : List (String × Value)) :
    ((sortedFields fields).map Prod.fst).Perm (fields.map Prod.fst) := by
  have hperm := (List.mergeSort_perm (fields.map fun (k, v) => (k, sorted v))
    fun a b => decide (a.1 ≤ b.1)).map Prod.fst
  rw [List.map_map] at hperm
  exact hperm

theorem nodup_sortedFields {fields : List (String × Value)} (h : (fields.map Prod.fst).Nodup) :
    ((sortedFields fields).map Prod.fst).Nodup :=
  (keys_sortedFields fields).nodup_iff.mpr h

/-- **Data are written** as a text that denotes them, with their keys in order. -/
theorem Data.exists_write {v : Value} (h : Data v) :
    ∀ depth, ∃ t, compact.write depth v = .ok t ∧ Denotes t.toList (sorted v) := by
  induction h with
  | scalar h =>
    obtain ⟨s, hs⟩ := exists_scalar h
    exact fun _ => ⟨s, hs, denotes_scalar hs⟩
  | list _ ih =>
    intro depth
    obtain ⟨texts, hwrite, htexts⟩ := exists_writeItems ih (depth + 1)
    refine ⟨_, ?_, denotes_list htexts depth⟩
    rw [Layout.write, hwrite]
    rfl
  | @map fields hkeys _ ih =>
    intro depth
    obtain ⟨written, hwrite, hwritten⟩ := exists_writeEntries ih (depth + 1)
    have horder := forall₂_mergeSort (r := fun a b => decide (a.1 ≤ b.1))
      (s := fun a b => decide (a.1 ≤ b.1)) (fun a b a' b' h h' => by rw [h.1, h'.1]) hwritten
    refine ⟨_, by rw [Value.ofFields, Layout.write, hwrite]; rfl, ?_⟩
    rw [sorted_ofFields]
    refine denotes_map (nodup_sortedFields hkeys) ?_ depth
    refine List.forall₂_map_left_iff.mpr (horder.imp fun w field hw => ?_)
    obtain ⟨k, t⟩ := w
    obtain ⟨rfl, ht⟩ := hw
    exact denotesEntry_append ht

/-- **A line** of data is printable, and it is read as the data with their keys in order. -/
theorem Data.exists_line {v : Value} (h : Data v) : ∃ t, line v = .ok t ∧
    (∀ c ∈ t.toList, IsPrintable c) ∧ read t.toList = .ok (sorted v) := by
  obtain ⟨t, hwrite, ht⟩ := h.exists_write 0
  refine ⟨t, hwrite, ht.printable, ?_⟩
  have hreads := ht.reads (.value []) ends_nil
  rw [List.append_nil] at hreads
  exact hreads

end Json

end Spreadsheet
