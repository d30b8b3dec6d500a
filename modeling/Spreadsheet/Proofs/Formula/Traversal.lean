import Spreadsheet.Proofs.Formula.Occurrence

/-! # References by recursion

The walk over a list of parts that are still to be visited collects what a recursive traversal
meets. `Expr.textsMet` goes through a tree from left to right and lists the texts of the references
with their repetitions; each once, they are the texts that the walk collects (`texts_references`).
For the references that are read whatever the conditions say, the traversal enters of a call of `IF`
only the condition. -/

namespace Spreadsheet

namespace Expr

mutual

/-- The texts of the references that are met from left to right. A traversal that is `skipping`
enters the first argument only of a call of `IF`, in whatever letters the name is written. -/
def textsMet (skipping : Bool) : Expr → List String
  | cell label => [label]
  | range start stop => [start ++ ":" ++ stop]
  | neg e => textsMet skipping e
  | binary _ l r | unsupported _ l r => textsMet skipping l ++ textsMet skipping r
  | call name args =>
    let each := textsOfEach skipping args
    (if skipping ∧ Text.upper name = "IF" then each.take 1 else each).flatten
  | literal _ | foreign _ => []

/-- The texts that are met in each of the trees. -/
def textsOfEach (skipping : Bool) : List Expr → List (List String)
  | [] => []
  | e :: rest => textsMet skipping e :: textsOfEach skipping rest

end

theorem textsOfEach_eq (skipping : Bool) (es : List Expr) :
    textsOfEach skipping es = es.map (textsMet skipping) := by
  induction es with
  | nil => rfl
  | cons e rest ih => rw [textsOfEach, ih, List.map_cons]

theorem textsMet_call (name : String) (args : List Expr) :
    (call name args).textsMet false = args.flatMap (textsMet false) := by
  rw [textsMet, textsOfEach_eq, if_neg (by simp), List.flatMap_def]

theorem textsMet_call_skipping (name : String) (args : List Expr) :
    (call name args).textsMet true = (eagerArguments name args).flatMap (textsMet true) := by
  rw [textsMet, textsOfEach_eq, List.flatMap_def]
  by_cases h : Text.upper name = "IF"
  · rw [if_pos ⟨rfl, h⟩, eagerArguments, isConditional, if_pos (decide_eq_true h), List.map_take]
  · rw [if_neg fun hif => h hif.2, eagerArguments, isConditional, if_neg (by simpa using h)]

/-- **Occurrences have the texts that the traversal meets** if both enter the same arguments. -/
theorem map_text_occurrences {skipping : Bool} {visited : String → List Expr → List Expr}
    (hv : ∀ name args, size.sizes (visited name args) ≤ size.sizes args)
    (hcall : ∀ name args, (call name args).textsMet skipping =
      (visited name args).flatMap (textsMet skipping)) (e : Expr) :
    (occurrences visited hv e).map Reference.text = e.textsMet skipping := by
  fun_induction occurrences visited hv e with
  | case1 | case2 => rw [textsMet]; rfl
  | case3 e ih => rw [textsMet, ih]
  | case4 op l r ihl ihr | case5 symbol l r ihl ihr => rw [List.map_append, ihl, ihr, textsMet]
  | case6 name args ih =>
    rw [hcall, List.map_flatMap]
    simp only [List.flatMap_subtype, List.unattach_attach]
    exact List.flatMap_congr ih
  | case7 | case8 => rw [textsMet]; rfl

theorem map_text_mentions (e : Expr) : e.mentions.map Reference.text = e.textsMet false :=
  map_text_occurrences sizes_all_le textsMet_call e

theorem map_text_eagerMentions (e : Expr) : e.eagerMentions.map Reference.text = e.textsMet true :=
  map_text_occurrences sizes_eagerArguments_le textsMet_call_skipping e

/-- **The collected references are those of a recursive traversal.** The texts of all references of a
tree are those met from left to right, without later repetitions. So are the texts of the references
that are read whatever the conditions say, for the traversal that enters only the condition of `IF`,
and they are among the texts of all. -/
theorem texts_references (e : Expr) :
    e.references.map Reference.text = (e.textsMet false).eraseDups ∧
      e.eagerReferences.map Reference.text = (e.textsMet true).eraseDups ∧
      e.eagerReferences.map Reference.text ⊆ e.references.map Reference.text := by
  have hall : e.references.map Reference.text = (e.textsMet false).eraseDups := by
    rw [references, collect_eq_foldl, Reference.map_text_foldl_addTo _ _ rfl, ← map_text_mentions,
      List.flatMap_singleton]
    rfl
  have heager : e.eagerReferences.map Reference.text = (e.textsMet true).eraseDups := by
    rw [eagerReferences, collect_eq_foldl, Reference.map_text_foldl_addTo _ _ rfl,
      ← map_text_eagerMentions, List.flatMap_singleton]
    rfl
  refine ⟨hall, heager, fun s hs => ?_⟩
  rw [heager, List.mem_eraseDups, ← map_text_eagerMentions] at hs
  obtain ⟨r, hr, rfl⟩ := List.mem_map.mp hs
  rw [hall, List.mem_eraseDups, ← map_text_mentions]
  exact List.mem_map_of_mem (mem_mentions_of_mem_eagerMentions hr)

end Expr

end Spreadsheet
