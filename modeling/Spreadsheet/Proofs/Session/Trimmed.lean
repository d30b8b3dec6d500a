import Spreadsheet.Grid
import Spreadsheet.Proofs.Session.Requests
import Spreadsheet.Proofs.Text

/-! # Blanks around formulas

A session reads a formula without the blanks around it: its tree, what it reads ahead and the text
by which a failure names it are those of what is left (`SameFormula`). So over sources that hold the
same but for such blanks a session does the same, step by step (`Trims.read_eq`), and answers any
requests alike (`Trims.transcript_eq`). -/

namespace Spreadsheet

/-- The texts are the same formula, with other blanks around it. -/
def SameFormula (a b : String) : Prop :=
  Text.trimList a.toList = Text.trimList b.toList

/-- The source holds what another one does, formulas without the blanks around them. -/
structure Source.Trims (src trimmed : Source) : Prop where
  cell : ∀ l, trimmed.cell l = (src.cell l).trimFormula
  formulas : trimmed.formulas = src.formulas

namespace Scalar

theorem isFormula_trim {s : String} (h : (text s).isFormula = true) :
    (text (Text.trim s)).isFormula = true := by
  simp only [isFormula, decide_eq_true_eq] at h ⊢
  rw [Text.trim, String.toList_ofList]
  cases hd : s.toList.dropWhile Text.isBlank with
  | nil => rw [hd] at h; cases h
  | cons c rest =>
    rw [hd, List.head?_cons] at h
    obtain rfl := Option.some.inj h
    have htrim : Text.trimList s.toList = '=' :: Text.trimEnd rest := by
      rw [Text.trimList, hd, Text.trimEnd_cons (by decide)]
    rw [htrim, List.dropWhile_cons_of_neg (by decide), List.head?_cons]

/-- Without the blanks around it a formula is one, and nothing else becomes one. -/
theorem isFormula_trimFormula (v : Scalar) : v.trimFormula.isFormula = v.isFormula := by
  cases v with
  | text s =>
    unfold trimFormula
    dsimp only
    split
    · next h => rw [h, isFormula_trim h]
    · rfl
  | _ => rfl

theorem trimFormula_of_not_formula {v : Scalar} (h : v.isFormula = false) : v.trimFormula = v := by
  cases v with
  | text s => simp only [trimFormula, h, Bool.false_eq_true, if_false]
  | _ => rfl

theorem trimFormula_of_formula {s : String} (h : (text s).isFormula = true) :
    (text s).trimFormula = text (Text.trim s) :=
  if_pos h

theorem trimFormula_trimFormula (v : Scalar) : v.trimFormula.trimFormula = v.trimFormula := by
  cases v with
  | text s =>
    by_cases h : (text s).isFormula = true
    · rw [trimFormula_of_formula h, trimFormula_of_formula (isFormula_trim h), Text.trim_trim]
    · have hstays := trimFormula_of_not_formula (Bool.eq_false_iff.mpr h)
      rw [hstays, hstays]
  | _ => rfl

end Scalar

/-! ### One formula -/

namespace SameFormula

variable {a b : String}

theorem trim (a : String) : SameFormula (Text.trim a) a := by
  rw [SameFormula, Text.trim, String.toList_ofList, Text.trimList_trimList]

theorem ofText (h : SameFormula a b) : Formula.ofText a = Formula.ofText b := by
  unfold SameFormula at h
  unfold Formula.ofText
  rw [h]

theorem dependencies (h : SameFormula a b) : Session.dependencies a = Session.dependencies b := by
  unfold Session.dependencies
  rw [h.ofText]

theorem cellResult (h : SameFormula a b) (r : Except Fault Value) :
    (Session.cellResult a r : Except Fault Scalar) = Session.cellResult b r := by
  have hbody : Session.bodyText a = Session.bodyText b := by
    unfold SameFormula at h
    unfold Session.bodyText
    rw [h]
  unfold Session.cellResult
  rw [hbody]

/-- A cell comes to the same by either text, its value and its failure. -/
theorem evaluateCell (h : SameFormula a b) (read : String → Session.Run Scalar) (key : String) :
    Session.evaluateCell read key a = Session.evaluateCell read key b := by
  unfold Session.evaluateCell Session.formulaValue
  simp only [h.ofText, h.cellResult]

end SameFormula

namespace Source.Trims

open Session (State Run Frame look walk start prefetch formulaAt isSettled)

variable {src trimmed : Source} (h : src.Trims trimmed)
include h

/-! ### What a session does -/

theorem formulaAt (l : String) : SameFormula (formulaAt trimmed l) (formulaAt src l) := by
  unfold Session.formulaAt
  rw [h.cell]
  cases src.cell l with
  | text s =>
    by_cases hs : (Scalar.text s).isFormula = true
    · rw [Scalar.trimFormula_of_formula hs]
      exact SameFormula.trim s
    · rw [Scalar.trimFormula_of_not_formula (Bool.eq_false_iff.mpr hs)]
      rfl
  | _ => rfl

theorem isFormula (l : String) :
    Content.isFormula (trimmed.cell l) = Content.isFormula (src.cell l) := by
  rw [h.cell, Content.isFormula_scalar, Content.isFormula_scalar, Scalar.isFormula_trimFormula]

/-- Only formulas are trimmed. -/
theorem cell_of_literal {l : String} (hl : ¬ src.HasFormula l) : trimmed.cell l = src.cell l := by
  rw [h.cell, Scalar.trimFormula_of_not_formula (Bool.eq_false_iff.mpr hl)]

theorem literal {l : String} (hl : ¬ src.HasFormula l) : trimmed.literal l = src.literal l := by
  unfold Source.literal
  rw [h.cell_of_literal hl]

theorem isSettled_eq : isSettled trimmed = isSettled src := by
  funext s l
  unfold Session.isSettled
  rw [h.isFormula]

/-- **A walk takes the same steps**, if what is evaluated does not depend on the blanks. -/
theorem walk_eq {evaluate : String → String → StateM State Scalar}
    (heval : ∀ key a b, SameFormula a b → evaluate key a = evaluate key b) :
    ∀ (steps : Nat) (stack : List Frame),
      walk trimmed evaluate steps stack = walk src evaluate steps stack
  | 0, stack => by cases stack <;> rfl
  | steps + 1, [] => rfl
  | steps + 1, frame :: below => by
    have hcell (l : String) : evaluate l (Session.formulaAt trimmed l) =
        evaluate l (Session.formulaAt src l) := heval l _ _ (h.formulaAt l)
    have hdeps (l : String) : Session.dependencies (Session.formulaAt trimmed l) =
        Session.dependencies (Session.formulaAt src l) := (h.formulaAt l).dependencies
    unfold walk
    simp only [h.isSettled_eq, hcell, hdeps, walk_eq heval steps]

theorem look_eq {compute compute' : String → String → Run Scalar}
    (hcompute : ∀ key a b, SameFormula a b → compute' key a = compute key b) :
    look trimmed compute' = look src compute := by
  funext label
  have hcell (l : String) : compute' l (Session.formulaAt trimmed l) =
      compute l (Session.formulaAt src l) := hcompute l _ _ (h.formulaAt l)
  unfold look
  refine bind_congr fun s => ?_
  split
  · rfl
  · by_cases hform : Content.isFormula (src.cell (Label.normalize label)) = true
    · simp only [h.isFormula, hform, if_true, hcell]
    · simp only [h.isFormula, hform, h.literal hform, Bool.false_eq_true, if_false]

theorem start_eq : ∀ (n : Nat) (key a b : String), SameFormula a b →
    start trimmed n key a = start src n key b
  | 0, _, _, _, _ => rfl
  | n + 1, key, a, b, hab => by
    have hlook := h.look_eq (start_eq n)
    have heval (key a b : String) (hab : SameFormula a b) := hab.evaluateCell
      (look src (start src n)) key
    rw [Session.start_succ, Session.start_succ]
    unfold Session.compute prefetch Session.walkBound
    simp only [hlook, hab.dependencies, heval key a b hab, h.formulas, h.walk_eq heval]

/-- **Every cell is read alike.** -/
theorem read_eq : Session.read trimmed = Session.read src := by
  funext label
  unfold Session.read
  rw [h.formulas, h.look_eq (h.start_eq _)]

theorem readRange_eq : Session.readRange trimmed = Session.readRange src := by
  funext first last
  unfold Session.readRange
  rw [h.read_eq]

theorem readAll_eq : Session.readAll trimmed = Session.readAll src := by
  unfold Session.readAll Session.readAllBy
  rw [h.read_eq, h.formulas]

theorem grid_eq : Session.grid trimmed = Session.grid src := by
  have hshown (label : String) : Session.shownValue trimmed label =
      Session.shownValue src label := by
    by_cases hform : src.HasFormula label
    · rw [Session.shownValue_of_formula src hform,
        Session.shownValue_of_formula trimmed ((h.isFormula label).trans hform), h.read_eq]
    · rw [Session.shownValue_of_literal src hform,
        Session.shownValue_of_literal trimmed (mt (h.isFormula label).symm.trans hform),
        h.cell_of_literal hform]
  have hentry (marker label : String) : Session.gridEntry trimmed marker label =
      Session.gridEntry src marker label :=
    congrArg (· >>= _) (hshown label)
  funext marker rows cols
  exact congrArg (fun entry => (List.range rows).mapM fun row =>
    (List.range cols).mapM fun column => entry (Position.mk row column).label)
    (funext (hentry marker))

end Source.Trims

/-! ### Replies -/

namespace Session

/-- What a request is answered with. -/
inductive Reply where
  | cell (v : Scalar)
  | range (values : List Scalar)
  | all (values : List (String × Scalar))
  | grid (shown : List (List Scalar))

/-- Answers a request in a session over a sheet. -/
def Request.reply (sheet : Sheet) : Request → Run Reply
  | cell label => do return .cell (← read sheet.source label)
  | range first last => do return .range (← readRange sheet.source first last)
  | all => do return .all (← readAll sheet.source)
  | grid marker => do
    return .grid (← Session.grid sheet.source marker sheet.rows sheet.cols)

/-- What a session answers to requests, each with the failures recorded by then. A request that
fails is answered with its fault, and the session goes on. -/
def transcript (sheet : Sheet) : List Request → State →
    List (Except Fault Reply × OrderedMap String CellError)
  | [], _ => []
  | request :: rest, s =>
    let (r, t) := StateT.run (request.reply sheet).run s
    (r, t.errors) :: transcript sheet rest t

end Session

/-- **All requests are answered alike**, and leave the same failures. -/
theorem Source.Trims.transcript_eq {sheet trimmed : Sheet} (h : sheet.source.Trims trimmed.source)
    (hrows : trimmed.rows = sheet.rows) (hcols : trimmed.cols = sheet.cols) :
    Session.transcript trimmed = Session.transcript sheet := by
  have hreply (request : Session.Request) : request.reply trimmed = request.reply sheet := by
    cases request <;>
      simp only [Session.Request.reply, h.read_eq, h.readRange_eq, h.readAll_eq, h.grid_eq, hrows,
        hcols]
  funext requests
  induction requests with
  | nil => rfl
  | cons request rest ih =>
    funext s
    unfold Session.transcript
    rw [hreply, ih]

end Spreadsheet
