import Spreadsheet.Proofs.Json.Received
import Spreadsheet.Proofs.Log.Selection
import Spreadsheet.Proofs.Text.Octets

/-! # Damaged journals

Octets that end with a line break are read by themselves (`Journal.held_append`), so what holds no
JSON can be taken out of a journal without a trace (`Journal.held_filter`). What is read answers every
query exactly if each line that holds JSON holds an event (`forall_exists_answer_iff`). -/

namespace Spreadsheet

theorem exists_ok_of_bind {α β ε : Type} {x : Except ε α} {f : α → Except ε β} {b : β}
    (h : x >>= f = .ok b) : ∃ a, x = .ok a ∧ f a = .ok b := by
  cases x with
  | error e => cases h
  | ok a => exact ⟨a, rfl, h⟩

namespace Log

namespace Journal

/-! ### What octets hold -/

/-- The values in octets, line by line. -/
def held (octets : List UInt8) : Except Unreadable (List Value) :=
  valuesOfLines (Text.lines (Utf8.decodeLossy octets))

theorem valuesOfLines_append (a b : List (List Char)) :
    valuesOfLines (a ++ b) = do return (← valuesOfLines a) ++ (← valuesOfLines b) := by
  induction a with
  | nil =>
    show valuesOfLines b = do return [] ++ (← valuesOfLines b)
    cases valuesOfLines b <;> rfl
  | cons line a ih =>
    rw [List.cons_append, valuesOfLines, valuesOfLines, ih]
    split
    · rfl
    · cases Json.read line with
      | ok v =>
        cases valuesOfLines a with
        | error e => rfl
        | ok values => cases valuesOfLines b <;> rfl
      | error e => cases e <;> rfl

/-- A line that is not blank. -/
def isFilled (line : List Char) : Bool :=
  !line.all Text.isBlank

theorem valuesOfLines_filter (lines : List (List Char)) :
    valuesOfLines (lines.filter isFilled) = valuesOfLines lines := by
  induction lines with
  | nil => rfl
  | cons line lines ih =>
    by_cases hblank : line.all Text.isBlank = true
    · rw [List.filter_cons_of_neg (by simp only [isFilled, hblank]; decide), ih, valuesOfLines,
        if_pos hblank]
    · rw [List.filter_cons_of_pos (by simpa [isFilled] using hblank), valuesOfLines, valuesOfLines,
        ih]

/-- **Octets that end with a line break** are read by themselves. -/
theorem held_append {a : List UInt8} (h : Utf8.EndsLine a) (b : List UInt8) :
    held (a ++ b) = do return (← held a) ++ (← held b) := by
  obtain ⟨hwhole, cs, c, hdecode, hc⟩ := h.decode
  have hempty : isFilled [] = false := rfl
  have hlines := Text.filter_linesFrom_append hempty hc (Utf8.decodeLossy b) cs []
  unfold held
  rw [Utf8.decodeLossy_append hwhole, hdecode, List.append_assoc, List.singleton_append,
    ← valuesOfLines_filter, Text.lines, hlines, valuesOfLines_append, valuesOfLines_filter,
    valuesOfLines_filter]
  rfl

/-! ### Damage -/

/-- Does the line hold no JSON? -/
def isDamaged (line : List Char) : Bool :=
  match Json.read line with
  | .error .malformed => true
  | _ => line.all Text.isBlank

/-- Do all lines in the octets hold no JSON? -/
def holdsNothing (octets : List UInt8) : Bool :=
  (Text.lines (Utf8.decodeLossy octets)).all isDamaged

theorem held_of_holdsNothing {octets : List UInt8} (h : holdsNothing octets = true) :
    held octets = .ok [] := by
  unfold holdsNothing at h
  unfold held
  generalize Text.lines (Utf8.decodeLossy octets) = lines at h ⊢
  induction lines with
  | nil => rfl
  | cons line lines ih =>
    rw [List.all_cons, Bool.and_eq_true] at h
    obtain ⟨hline, hlines⟩ := h
    rw [valuesOfLines, ih hlines]
    split
    · rfl
    · next hfilled =>
      unfold isDamaged at hline
      split at hline
      · next hread => rw [hread]
      · exact absurd hline hfilled

/-- **What holds no JSON** can be taken out, if each piece but the last ends with a line break. -/
theorem held_filter {pieces : List (List UInt8)} (h : ∀ p ∈ pieces.dropLast, Utf8.EndsLine p) :
    held (pieces.filter fun p => !holdsNothing p).flatten = held pieces.flatten := by
  induction pieces with
  | nil => rfl
  | cons p pieces ih =>
    have hrest : held (pieces.filter fun p => !holdsNothing p).flatten = held pieces.flatten :=
      ih fun x hx => h x (by cases pieces with
        | nil => cases hx
        | cons q qs => exact List.mem_cons_of_mem _ hx)
    -- Nothing comes after the last piece, so it need not end with a line break.
    have happend : ∀ rest, (pieces = [] → rest = []) →
        held (p ++ rest) = do return (← held p) ++ (← held rest) := fun rest hlast => by
      cases pieces with
      | nil =>
        rw [hlast rfl, List.append_nil]
        show held p = do return (← held p) ++ []
        cases held p <;> simp [bind, Except.bind, pure, Except.pure]
      | cons q qs => exact held_append (h p (by simp)) rest
    rw [List.flatten_cons, happend _ (by rintro rfl; rfl)]
    by_cases hnothing : holdsNothing p = true
    · rw [List.filter_cons_of_neg (by simp [hnothing]), hrest, held_of_holdsNothing hnothing]
      cases held pieces.flatten <;> rfl
    · rw [List.filter_cons_of_pos (by simpa using hnothing), List.flatten_cons,
        happend _ (by rintro rfl; rfl), hrest]

/-! ### Events -/

/-- **A value that is an event** as far as queries look: a map, whose context is a map or holds
nothing. -/
def IsEvent (v : Value) : Prop :=
  ∃ entries, v = .map entries ∧ ∀ context, Value.field? entries "context" = some context →
    context.isFilled = true → ∃ fields, context = .map fields

/-- A line that holds no JSON or an event. -/
def IsSound (line : List Char) : Prop :=
  isDamaged line = true ∨ ∃ v, Json.read line = .ok v ∧ IsEvent v

theorem isDamaged_of_blank {line : List Char} (h : line.all Text.isBlank = true) :
    isDamaged line = true := by
  unfold isDamaged
  split
  · rfl
  · exact h

/-- A line that holds JSON is sound exactly if it holds an event. -/
theorem isSound_iff {line : List Char} (hfilled : ¬ line.all Text.isBlank = true)
    (hread : Json.read line ≠ .error .malformed) :
    IsSound line ↔ ∃ v, Json.read line = .ok v ∧ IsEvent v := by
  refine or_iff_right fun hdamaged => ?_
  unfold isDamaged at hdamaged
  split at hdamaged
  · exact hread ‹_›
  · exact hfilled hdamaged

/-- What lines hold are events exactly if each line that holds JSON holds one. -/
theorem forall_isSound_iff {lines : List (List Char)} : (∀ line ∈ lines, IsSound line) ↔
    ∃ values, valuesOfLines lines = .ok values ∧ ∀ v ∈ values, IsEvent v := by
  induction lines with
  | nil => exact ⟨fun _ => ⟨[], rfl, by simp⟩, fun _ => by simp⟩
  | cons line lines ih =>
    rw [List.forall_mem_cons, ih, valuesOfLines]
    by_cases hblank : line.all Text.isBlank = true
    · rw [if_pos hblank]
      exact and_iff_right (.inl (isDamaged_of_blank hblank))
    · rw [if_neg hblank]
      split
      · next v hread =>
        have hv : IsSound line ↔ IsEvent v := by
          rw [isSound_iff hblank (by simp [hread])]
          exact ⟨fun ⟨_, hw, hevent⟩ => Except.ok.inj (hread.symm.trans hw) ▸ hevent,
            fun hevent => ⟨v, hread, hevent⟩⟩
        rw [hv]
        constructor
        · rintro ⟨hevent, values, hvalues, hall⟩
          exact ⟨v :: values, by rw [hvalues]; rfl, List.forall_mem_cons.mpr ⟨hevent, hall⟩⟩
        · rintro ⟨all, hall, hevents⟩
          obtain ⟨values, hvalues, hcons⟩ := exists_ok_of_bind hall
          obtain rfl := Except.ok.inj hcons
          obtain ⟨hevent, hrest⟩ := List.forall_mem_cons.mp hevents
          exact ⟨hevent, values, hvalues, hrest⟩
      · next hread => exact and_iff_right (.inl (by rw [isDamaged, hread]))
      · next e hmalformed hread =>
        constructor
        · rintro ⟨hline, -⟩
          obtain ⟨v, hv, -⟩ := (isSound_iff hblank (by
            rw [hread]
            exact fun h => hmalformed (Except.error.inj h))).mp hline
          rw [hread] at hv
          cases hv
        · rintro ⟨_, h, -⟩
          cases h

theorem data_of_valuesOfLines {lines : List (List Char)} {values : List Value}
    (h : valuesOfLines lines = .ok values) : ∀ v ∈ values, Json.Data v := by
  induction lines generalizing values with
  | nil =>
    obtain rfl := Except.ok.inj h
    simp
  | cons line lines ih =>
    rw [valuesOfLines] at h
    split at h
    · exact ih h
    · split at h
      · next v hread =>
        obtain ⟨rest, hrest, h⟩ := exists_ok_of_bind h
        obtain rfl := Except.ok.inj h
        exact List.forall_mem_cons.mpr ⟨Json.data_of_read hread, ih hrest⟩
      · exact ih h
      · cases h

end Journal

namespace Query

open Journal

/-! ### Queries -/

variable {q : Query}

/-- The fields of the context of an event can be asked for. -/
theorem exists_contextField {es : List (Scalar × Value)} (hv : IsEvent (.map es))
    (hdata : Json.Data (.map es)) (key : String) :
    ∃ found, contextField es key = .ok found ∧ ∀ w ∈ found, Json.Data w := by
  obtain ⟨_, hes, hcontext⟩ := hv
  obtain rfl := Value.map.inj hes
  unfold contextField
  split
  · exact ⟨none, rfl, by simp⟩
  · next context hfound =>
    split
    · next hfilled =>
      obtain ⟨fields, rfl⟩ := hcontext context hfound hfilled
      exact ⟨_, rfl, fun w hw => (hdata.field? hfound).field? hw⟩
    · exact ⟨none, rfl, by simp⟩

/-- **An event answers a query or not.** -/
theorem exists_selects (q : Query) {v : Value} (hv : IsEvent v) (hdata : Json.Data v) :
    ∃ b, q.selects v = .ok b := by
  obtain ⟨es, rfl, -⟩ := id hv
  have hsheet : ∃ b, q.ofSheet es = .ok b := by
    unfold ofSheet
    split
    · exact ⟨_, rfl⟩
    · obtain ⟨found, hfound, -⟩ := exists_contextField hv hdata "sheet_name"
      rw [hfound]
      simp only [bind, Except.bind]
      split <;> exact ⟨_, rfl⟩
  have hcell : ∃ b, q.ofCell es = .ok b := by
    unfold ofCell
    split
    · exact ⟨_, rfl⟩
    · obtain ⟨found, hfound, hall⟩ := exists_contextField hv hdata "cell"
      have hd : Json.Data (found.getD (.text "")) := by
        cases found with
        | none => exact .scalar fun _ h => (by cases h)
        | some w => exact hall w rfl
      obtain ⟨s, hs⟩ := hd.exists_shown
      rw [hfound]
      simp only [bind, Except.bind, hs, Except.mapError]
      exact ⟨_, rfl⟩
  obtain ⟨b, hb⟩ := hsheet
  obtain ⟨b', hb'⟩ := hcell
  rw [selects_map, hb, hb']
  split
  · cases b <;> exact ⟨_, rfl⟩
  · exact ⟨_, rfl⟩

theorem exists_select (q : Query) {values : List Value}
    (h : ∀ v ∈ values, ∃ b, q.selects v = .ok b) (room : Nat) :
    ∃ events, q.select room values = .ok events := by
  induction values generalizing room with
  | nil => exact ⟨[], rfl⟩
  | cons v values ih =>
    obtain ⟨⟨b, hb⟩, hrest⟩ := List.forall_mem_cons.mp h
    cases b with
    | false => exact select_of_false hb room values ▸ ih hrest room
    | true =>
      cases room with
      | zero => exact ⟨[v], select_last hb values⟩
      | succ room =>
        obtain ⟨events, hevents⟩ := ih hrest room
        exact ⟨v :: events, by rw [select_of_true hb, hevents]; rfl⟩

/-! ### Queries that look at everything -/

/-- The query for a sheet. -/
def forSheet (s : String) : Query :=
  { sheet := some s }

theorem ofSheet_forSheet {s : String} (hs : s ≠ "") (es : List (Scalar × Value)) :
    (forSheet s).ofSheet es = do
      match ← contextField es "sheet_name" with
      | some (.scalar v) => return v = .text s
      | _ => return false :=
  ofSheet_of_some rfl hs es

/-- What a query for a sheet looks at is an event. -/
theorem isEvent_of_selects {s : String} (hs : s ≠ "") {v : Value} {b : Bool}
    (h : (forSheet s).selects v = .ok b) : IsEvent v := by
  cases v with
  | scalar v => cases h
  | list items => cases h
  | map es =>
    refine ⟨es, rfl, fun context hcontext hfilled => ?_⟩
    cases context with
    | map fields => exact ⟨fields, rfl⟩
    | _ =>
      -- Any other context that holds something has no fields to ask for.
      have hfield : contextField es "sheet_name" = .error .notMapping := by
        rw [contextField, hcontext]
        simp only [hfilled, if_true]
        rfl
      rw [selects_map, ofSheet_forSheet hs, hfield] at h
      cases h

/-- The sheet that an event names. -/
def sheetName? : Value → Option String
  | .map es =>
    match contextField es "sheet_name" with
    | .ok (some (.scalar (.text s))) => some s
    | _ => none
  | _ => none

theorem sheetName?_of_selects {s : String} (hs : s ≠ "") {v : Value}
    (h : (forSheet s).selects v = .ok true) : sheetName? v = some s := by
  cases v with
  | scalar v => cases h
  | list items => cases h
  | map es =>
    rw [selects_map] at h
    split at h
    · obtain ⟨b, hsheet, h⟩ := exists_ok_of_bind h
      cases b with
      | false => cases h
      | true =>
        rw [ofSheet_forSheet hs] at hsheet
        obtain ⟨found, hfound, hsheet⟩ := exists_ok_of_bind hsheet
        split at hsheet
        · next v =>
          have hv : v = .text s := by simpa [pure, Except.pure] using hsheet
          rw [sheetName?, hfound, hv]
        · cases hsheet
    · cases h

/-- A text that is longer than all of the texts. -/
theorem exists_fresh (texts : List String) : ∃ s, s ≠ "" ∧ s ∉ texts := by
  obtain ⟨n, hn⟩ : ∃ n, ∀ t ∈ texts, t.length < n := by
    induction texts with
    | nil => exact ⟨0, by simp⟩
    | cons t texts ih =>
      obtain ⟨n, hn⟩ := ih
      refine ⟨max n (t.length + 1), List.forall_mem_cons.mpr ⟨by omega, fun x hx => ?_⟩⟩
      have := hn x hx
      omega
  refine ⟨String.ofList (List.replicate (n + 1) 'x'), ?_, fun hmem => ?_⟩
  · simp
  · have := hn _ hmem
    rw [String.length_ofList, List.length_replicate] at this
    omega

/-- If nothing is selected, everything is looked at. -/
theorem exists_selects_of_select {values events : List Value} {room : Nat}
    (hnone : ∀ v ∈ values, q.selects v ≠ .ok true) (h : q.select room values = .ok events) :
    ∀ v ∈ values, ∃ b, q.selects v = .ok b := by
  induction values with
  | nil => simp
  | cons v values ih =>
    obtain ⟨hv, hrest⟩ := List.forall_mem_cons.mp hnone
    cases hb : q.selects v with
    | error e =>
      rw [select_of_error hb] at h
      cases h
    | ok b =>
      cases b with
      | true => exact absurd hb hv
      | false =>
        rw [select_of_false hb] at h
        exact List.forall_mem_cons.mpr ⟨⟨false, hb⟩, ih hrest h⟩

/-- **What is read answers every query** exactly if each line that holds JSON holds an event. -/
theorem forall_exists_answer_iff {size : Int} {octets : List UInt8} :
    (∀ q : Query, ∃ events, q.answer size octets = .ok events) ↔
      ∀ line ∈ Text.lines (Utf8.decodeLossy (tail size octets)), IsSound line := by
  rw [forall_isSound_iff]
  constructor
  · intro h
    -- A query whose sheet no event names looks at all that is read, and so does not fail on it.
    obtain ⟨values, hvalues⟩ : ∃ values, Journal.values size octets = .ok values := by
      obtain ⟨events, hevents⟩ := h {}
      obtain ⟨values, hvalues, -⟩ := exists_ok_of_bind hevents
      cases hread : Journal.values size octets with
      | error e =>
        rw [hread] at hvalues
        cases hvalues
      | ok values => exact ⟨values, rfl⟩
    obtain ⟨s, hs, hfresh⟩ := exists_fresh (values.filterMap sheetName?)
    obtain ⟨events, hevents⟩ := h (forSheet s)
    rw [answer, hvalues] at hevents
    have hnone : ∀ v ∈ values.reverse, (forSheet s).selects v ≠ .ok true := fun v hv hselects =>
      hfresh (List.mem_filterMap.mpr ⟨v, List.mem_reverse.mp hv, sheetName?_of_selects hs hselects⟩)
    have hall := exists_selects_of_select hnone hevents
    refine ⟨values, hvalues, fun v hv => ?_⟩
    obtain ⟨b, hb⟩ := hall v (List.mem_reverse.mpr hv)
    exact isEvent_of_selects hs hb
  · rintro ⟨values, hvalues, hevents⟩ q
    have hdata := data_of_valuesOfLines hvalues
    have hvalues : Journal.values size octets = .ok values := hvalues
    obtain ⟨events, hselect⟩ := exists_select q (fun v hv => exists_selects q
      (hevents v (List.mem_reverse.mp hv)) (hdata v (List.mem_reverse.mp hv))) (q.room - 1)
    refine ⟨events, ?_⟩
    rw [answer, hvalues]
    exact hselect

end Query

open Query Journal in
/-- **Damage leaves no trace**: what is read answers every query exactly if each line that holds JSON
holds an event, and of a journal that is read whole, lines that hold no JSON can be taken out without
any answer being another one. -/
theorem answer_of_damaged (size : Int) (octets : List UInt8) :
    ((∀ q : Query, ∃ events, q.answer size octets = .ok events) ↔
      ∀ line ∈ Text.lines (Utf8.decodeLossy (tail size octets)), IsSound line) ∧
    ∀ pieces : List (List UInt8), octets = pieces.flatten →
      (∀ p ∈ pieces.dropLast, Utf8.EndsLine p) → octets.length ≤ size →
      ∀ q : Query, q.answer size octets
        = q.answer size (pieces.filter fun p => !holdsNothing p).flatten := by
  refine ⟨forall_exists_answer_iff, ?_⟩
  rintro pieces rfl hpieces hsize q
  have hless : (pieces.filter fun p => !holdsNothing p).flatten.length ≤ pieces.flatten.length :=
    (List.filter_sublist.flatten).length_le
  have hheld := held_filter hpieces
  unfold held at hheld
  unfold answer Journal.values
  rw [tail_eq_self hsize, tail_eq_self (by omega), hheld]

/-- Three lines: one that has been torn, one that is no text, and an event. -/
def tornJournal : List (List UInt8) :=
  [Utf8.encode "\x7b\"level\": \"in\n".toList, [0xff, 0xe2, 10],
    Utf8.encode "\x7b\"level\": \"info\"\x7d\n".toList]

open Query Journal in
/-- Of the three lines, the event alone is read. -/
theorem answer_of_damaged_torn : (∀ p ∈ tornJournal.dropLast, Utf8.EndsLine p) ∧
    tornJournal.flatten.length ≤ (100 : Int) ∧ ∀ q : Query, q.answer 100 tornJournal.flatten
      = q.answer 100 (Utf8.encode "\x7b\"level\": \"info\"\x7d\n".toList) := by
  have hends : ∀ p ∈ tornJournal.dropLast, Utf8.EndsLine p :=
    List.forall_mem_cons.mpr ⟨⟨Utf8.encode "\x7b\"level\": \"in".toList, '\n', by decide, by decide⟩,
      List.forall_mem_singleton.mpr ⟨[0xff, 0xe2], '\n', by decide, by decide⟩⟩
  have hsize : tornJournal.flatten.length ≤ (100 : Int) := by decide
  have hfilter : tornJournal.filter (fun p => !holdsNothing p)
      = [Utf8.encode "\x7b\"level\": \"info\"\x7d\n".toList] := by decide
  refine ⟨hends, hsize, fun q => ?_⟩
  have h := (answer_of_damaged 100 tornJournal.flatten).2 tornJournal rfl hends hsize q
  rw [hfilter, List.flatten_singleton] at h
  exact h

/-- **A line that holds JSON and no map** ends a query. -/
theorem not_answered_list : ¬ ∀ (octets : List UInt8) (q : Query),
    ∃ events, q.answer Journal.defaultTailSize octets = .ok events := by
  intro h
  obtain ⟨events, hevents⟩ := h (Utf8.encode "[1]\n".toList) {}
  have hfails : Query.answer {} Journal.defaultTailSize (Utf8.encode "[1]\n".toList)
      = .error .notMapping := by rfl
  rw [hfails] at hevents
  cases hevents

end Log

end Spreadsheet
