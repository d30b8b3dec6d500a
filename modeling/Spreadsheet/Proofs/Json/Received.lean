import Spreadsheet.Proofs.Json.RoundTrip

/-! # What is read is data

Whatever text is read as JSON, the value is data (`data_of_read`): its maps are from texts, each text
a key once, and its integers have numerals. The invariant is that everything met so far is data; a
step of the reader keeps it (`State.Sound.step`). Data can be shown (`Data.exists_shown`). -/

namespace Spreadsheet

namespace Json

/-! ### Scalars -/

theorem natAbs_sign (negative : Bool) (n : Nat) :
    (if negative then -(n : Int) else n).natAbs = n := by
  cases negative <;> simp

/-- A numeral that can be read has no more digits than one that can be written. -/
theorem writable_of_read {digits : List Char} {n : Nat} (h : Numeral.read digits = .ok n)
    (negative : Bool) : Writable (.int (if negative then -n else n)) := by
  intro m hm
  have habs := natAbs_sign negative n
  rw [show (if negative then -(n : Int) else n) = m by cases hm; rfl] at habs
  rw [habs, Decimal.powerOfTen_eq]
  exact Numeral.lt_of_read h

theorem writable_words : ∀ x ∈ words, Writable x.2 := by
  simp only [words, List.forall_mem_cons]
  exact ⟨fun _ h => (by cases h), fun _ h => (by cases h), fun _ h => (by cases h),
    fun _ h => (by cases h), fun _ h => (by cases h), fun _ h => (by cases h), by simp⟩

theorem number?_ne_word {cs : List Char} {v : Scalar} {count : Nat} :
    number? cs ≠ some (.word v, count) := by
  intro h
  simp only [number?] at h
  split_ifs at h
  · cases h
  · simp at h

/-- A word stands for a scalar that can be written. -/
theorem writable_of_front? {cs : List Char} {v : Scalar} {count : Nat}
    (h : Token.front? cs = some (.word v, count)) : Writable v := by
  unfold Token.front? at h
  split at h
  case h_8 rest _ _ _ _ _ _ _ =>
    obtain ⟨⟨t, n⟩, hfound, ht⟩ := Option.map_eq_some_iff.mp h
    obtain ⟨rfl, -⟩ := Prod.mk.inj ht
    cases hword : word? _ with
    | none =>
      rw [hword] at hfound
      exact absurd hfound number?_ne_word
    | some found =>
      rw [hword] at hfound
      obtain rfl := Option.some.inj hfound
      obtain ⟨x, hx, hxv⟩ := Option.map_eq_some_iff.mp hword
      obtain rfl : x.2 = v := by
        cases hxv
        rfl
      exact writable_words x (List.mem_of_find?_eq_some hx)
  all_goals simp at h

/-! ### Entries -/

/-- Entries of texts and data, where a text may be a key again. -/
def DataEntries (entries : List (Scalar × Value)) : Prop :=
  ∃ fields : List (String × Value), entries = fields.map (fun (k, v) => (.text k, v)) ∧
    ∀ x ∈ fields, Data x.2

theorem DataEntries.nil : DataEntries [] := ⟨[], rfl, by simp⟩

theorem DataEntries.cons {entries : List (Scalar × Value)} (h : DataEntries entries) (k : String)
    {v : Value} (hv : Data v) : DataEntries ((.text k, v) :: entries) := by
  obtain ⟨fields, rfl, hfields⟩ := h
  exact ⟨(k, v) :: fields, rfl, List.forall_mem_cons.mpr ⟨hv, hfields⟩⟩

/-- Texts are the same key if they are equal. -/
theorem insertBy_text (k : String) (v : Value) (fields : List (String × Value)) :
    OrderedMap.insertBy Scalar.sameKey (.text k) v (fields.map fun (k, v) => (.text k, v))
      = (OrderedMap.insert k v fields).map fun (k, v) => (.text k, v) := by
  induction fields with
  | nil => rfl
  | cons x fields ih =>
    obtain ⟨k', v'⟩ := x
    have hsame : (Scalar.text k').sameKey (.text k) = (k' == k) := by
      simp [Scalar.sameKey, Scalar.number?, beq_eq_decide]
    rw [List.map_cons, OrderedMap.insertBy, hsame, ih, OrderedMap.insert, OrderedMap.insert,
      OrderedMap.insertBy]
    split
    · next heq =>
      rw [beq_iff_eq.mp heq]
      rfl
    · rfl

theorem forall_mem_insert {k : String} {v : Value} {fields : List (String × Value)}
    (h : ∀ x ∈ fields, Data x.2) (hv : Data v) :
    ∀ x ∈ OrderedMap.insert k v fields, Data x.2 := by
  induction fields with
  | nil => exact List.forall_mem_singleton.mpr hv
  | cons x fields ih =>
    obtain ⟨hx, hfields⟩ := List.forall_mem_cons.mp h
    rw [OrderedMap.insert, OrderedMap.insertBy]
    split
    · exact List.forall_mem_cons.mpr ⟨hv, hfields⟩
    · exact List.forall_mem_cons.mpr ⟨hx, ih hfields⟩

theorem nodup_insert {k : String} {v : Value} {fields : List (String × Value)}
    (h : (fields.map Prod.fst).Nodup) : ((OrderedMap.insert k v fields).map Prod.fst).Nodup := by
  have hkeys := OrderedMap.keys_insert k v fields
  unfold OrderedMap.keys at hkeys
  rw [hkeys]
  split
  · exact h
  · next hnew =>
    refine List.nodup_append.mpr ⟨h, List.nodup_singleton k, fun a ha b hb hab => hnew ?_⟩
    rwa [← List.mem_singleton.mp hb, ← hab]

/-- **The map of entries** is data. -/
theorem DataEntries.mapOfList {entries : List (Scalar × Value)} (h : DataEntries entries) :
    Data (.map (Value.mapOfList entries)) := by
  obtain ⟨fields, rfl, hfields⟩ := h
  have hfold : ∀ met : List (String × Value), (met.map Prod.fst).Nodup → (∀ x ∈ met, Data x.2) →
      Data (.map ((fields.map fun x => (Scalar.text x.1, x.2)).foldl
        (fun m x => OrderedMap.insertBy Scalar.sameKey x.1 x.2 m)
        (met.map fun x => (.text x.1, x.2)))) := by
    induction fields with
    | nil => exact fun met hkeys hdata => .map hkeys hdata
    | cons x fields ih =>
      obtain ⟨hx, hrest⟩ := List.forall_mem_cons.mp hfields
      intro met hkeys hdata
      have hinsert := insertBy_text x.1 x.2 met
      rw [List.map_cons, List.foldl_cons]
      simp only [hinsert]
      exact ih hrest _ (nodup_insert hkeys) (forall_mem_insert hdata hx)
  exact hfold [] List.nodup_nil (by simp)

theorem DataEntries.reverse {entries : List (Scalar × Value)} (h : DataEntries entries) :
    DataEntries entries.reverse := by
  obtain ⟨fields, rfl, hfields⟩ := h
  exact ⟨fields.reverse, List.map_reverse.symm, fun x hx => hfields x (List.mem_reverse.mp hx)⟩

/-! ### The reader -/

/-- What a frame holds is data. -/
def Frame.Sound : Frame → Prop
  | .list items => ∀ v ∈ items, Data v
  | .map entries _ => DataEntries entries

/-- **Everything met so far is data.** -/
def State.Sound : State → Prop
  | .value frames | .firstItem frames | .firstKey frames => ∀ f ∈ frames, f.Sound
  | .afterItem items frames => (∀ v ∈ items, Data v) ∧ ∀ f ∈ frames, f.Sound
  | .key entries frames | .colon entries _ frames | .afterEntry entries frames =>
    DataEntries entries ∧ ∀ f ∈ frames, f.Sound
  | .done v => Data v

theorem State.sound_complete {v : Value} {frames : List Frame} (hv : Data v)
    (h : ∀ f ∈ frames, f.Sound) : (State.complete v frames).Sound := by
  cases frames with
  | nil => exact hv
  | cons f frames =>
    obtain ⟨hf, hframes⟩ := List.forall_mem_cons.mp h
    cases f with
    | list items => exact ⟨List.forall_mem_cons.mpr ⟨hv, hf⟩, hframes⟩
    | map entries k => exact ⟨hf.cons k hv, hframes⟩

theorem State.sound_begin {frames : List Frame} (h : ∀ f ∈ frames, f.Sound) {t : Token}
    (ht : ∀ v, t = .word v → Writable v) {s : State} (hs : State.begin frames t = .ok s) :
    s.Sound := by
  cases t with
  | openList => cases hs; exact h
  | openMap => cases hs; exact h
  | text k => cases hs; exact sound_complete (.scalar fun _ h => (by cases h)) h
  | word v => cases hs; exact sound_complete (.scalar (ht v rfl)) h
  | decimal x => cases hs; exact sound_complete (.scalar fun _ h => (by cases h)) h
  | integer negative digits =>
    rw [State.begin] at hs
    split at hs
    · next n hn =>
      cases hs
      exact sound_complete (.scalar (writable_of_read hn negative)) h
    · cases hs
  | closeList => cases hs
  | closeMap => cases hs
  | comma => cases hs
  | colon => cases hs

/-- **A step of the reader** keeps the invariant. -/
theorem State.Sound.step {s : State} (h : s.Sound) {t : Token} (ht : ∀ v, t = .word v → Writable v)
    {s' : State} (hs : s.step t = .ok s') : s'.Sound := by
  unfold State.step at hs
  split at hs
  case h_1 frames t => exact sound_begin h ht hs
  case h_2 frames => cases hs; exact sound_complete (.list (by simp)) h
  case h_3 =>
    exact sound_begin (List.forall_mem_cons.mpr ⟨by simp [Frame.Sound], h⟩) ht hs
  case h_4 items frames => cases hs; exact List.forall_mem_cons.mpr ⟨h.1, h.2⟩
  case h_5 items frames =>
    cases hs
    exact sound_complete (.list fun v hv => h.1 v (List.mem_reverse.mp hv)) h.2
  case h_6 frames => cases hs; exact sound_complete DataEntries.nil.mapOfList h
  case h_7 frames k => cases hs; exact ⟨DataEntries.nil, h⟩
  case h_8 entries frames k => cases hs; exact h
  case h_9 entries k frames => cases hs; exact List.forall_mem_cons.mpr ⟨h.1, h.2⟩
  case h_10 entries frames => cases hs; exact h
  case h_11 entries frames => cases hs; exact sound_complete h.1.reverse.mapOfList h.2
  case h_12 => cases hs

theorem State.Sound.readFrom {s : State} (h : s.Sound) {cs : List Char} {skip : Nat} {v : Value}
    (hread : readFrom skip s cs = .ok v) : Data v := by
  induction cs generalizing skip s with
  | nil =>
    unfold Json.readFrom State.finish at hread
    split at hread
    · cases hread; exact h
    · cases hread
  | cons c cs ih =>
    cases skip with
    | succ skip => exact ih h hread
    | zero =>
      rw [Json.readFrom] at hread
      split at hread
      · exact ih h hread
      · split at hread
        · cases hread
        · next t more hfront =>
          cases hstep : s.step t with
          | error e => rw [hstep] at hread; cases hread
          | ok s' =>
            rw [hstep] at hread
            exact ih (h.step (fun v hv => writable_of_front? (hv ▸ hfront)) hstep) hread

/-- **What is read is data.** -/
theorem data_of_read {cs : List Char} {v : Value} (h : read cs = .ok v) : Data v :=
  State.Sound.readFrom (s := .value []) (by simp [State.Sound]) h

/-! ### Data that are shown -/

theorem data_map_iff {entries : List (Scalar × Value)} : Data (.map entries) ↔
    ∃ fields : List (String × Value), entries = fields.map (fun (k, v) => (.text k, v)) ∧
      (fields.map Prod.fst).Nodup ∧ ∀ x ∈ fields, Data x.2 := by
  constructor
  · generalize hv : Value.map entries = v
    intro h
    cases h with
    | scalar => cases hv
    | list => cases hv
    | @map fields hkeys h => exact ⟨fields, Value.map.inj hv, hkeys, h⟩
  · rintro ⟨fields, rfl, hkeys, h⟩
    exact .map hkeys h

theorem Data.field? {entries : List (Scalar × Value)} (h : Data (.map entries)) {key : String}
    {v : Value} (hv : Value.field? entries key = some v) : Data v := by
  obtain ⟨fields, rfl, -, hfields⟩ := data_map_iff.mp h
  obtain ⟨x, hx, rfl⟩ := Option.map_eq_some_iff.mp hv
  obtain ⟨field, hmem, rfl⟩ := List.mem_map.mp (List.mem_of_find?_eq_some hx)
  exact hfields field hmem

theorem exists_quoted {v : Scalar} (h : Writable v) : ∃ s, v.quoted = .ok s := by
  cases v with
  | null => exact ⟨_, rfl⟩
  | bool b => cases b <;> exact ⟨_, rfl⟩
  | text s => exact ⟨_, rfl⟩
  | number n =>
    cases n with
    | int n =>
      refine ⟨toString n, ?_⟩
      simp only [Scalar.quoted, Number.shown, Numeral.write, if_pos (h n rfl)]
    | float x => exact ⟨_, rfl⟩

theorem exists_quotedItems {items : List Value} (h : ∀ v ∈ items, ∃ s, v.quoted = .ok s) :
    ∃ texts, Value.quotedItems items = .ok texts := by
  induction items with
  | nil => exact ⟨[], rfl⟩
  | cons v items ih =>
    obtain ⟨⟨s, hs⟩, hitems⟩ := List.forall_mem_cons.mp h
    obtain ⟨texts, htexts⟩ := ih hitems
    exact ⟨s :: texts, by rw [Value.quotedItems, hs, htexts]; rfl⟩

theorem exists_quotedEntries {fields : List (String × Value)}
    (h : ∀ x ∈ fields, ∃ s, x.2.quoted = .ok s) :
    ∃ texts, Value.quotedEntries (fields.map fun (k, v) => (.text k, v)) = .ok texts := by
  induction fields with
  | nil => exact ⟨[], rfl⟩
  | cons x fields ih =>
    obtain ⟨⟨s, hs⟩, hfields⟩ := List.forall_mem_cons.mp h
    obtain ⟨texts, htexts⟩ := ih hfields
    exact ⟨_, by rw [List.map_cons, Value.quotedEntries, hs, htexts]; rfl⟩

/-- **Data can be shown** inside a list or a map. -/
theorem Data.exists_quoted {v : Value} (h : Data v) : ∃ s, v.quoted = .ok s := by
  induction h with
  | scalar h => exact Json.exists_quoted h
  | list _ ih =>
    obtain ⟨texts, htexts⟩ := exists_quotedItems ih
    exact ⟨_, by rw [Value.quoted, htexts]; rfl⟩
  | map _ _ ih =>
    obtain ⟨texts, htexts⟩ := exists_quotedEntries ih
    exact ⟨_, by rw [Value.ofFields, Value.quoted, htexts]; rfl⟩

theorem Data.exists_shown {v : Value} (h : Data v) : ∃ s, v.shown = .ok s := by
  cases v with
  | scalar v => cases v with
    | text s => exact ⟨s, rfl⟩
    | _ => exact h.exists_quoted
  | _ => exact h.exists_quoted

end Json

end Spreadsheet
