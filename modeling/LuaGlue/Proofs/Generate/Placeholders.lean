import LuaGlue.Proofs.Code.Gaps
import LuaGlue.Proofs.Generate.Names
import LuaGlue.Proofs.Text.Alphabet

/-!
# Gaps are counted

A run reports how many gaps its code marks. The number and the text come about separately, chunk by chunk:
a chunk is laid out on a page that has a counter of its own, a declaration that fails loses its page,
counter and all, and the pages that are left are appended to one another (`Code.page_seq`). That the sum is
the number of times the mark stands in the text is `placeholders_counted`: the mark does not
run over the end of a line, and on the line of a gap it stands once.
-/

set_option autoImplicit false

namespace LuaGlue

/-! ## How often a mark stands in a text -/

namespace Text

/-- At how many positions of a text `mark` stands. -/
def occurrences (mark cs : List Char) : Nat := cs.tails.countP (mark.isPrefixOf ·)

variable {mark : List Char}

theorem occurrences_cons (c : Char) (cs : List Char) :
    occurrences mark (c :: cs) =
      occurrences mark cs + if mark.isPrefixOf (c :: cs) then 1 else 0 := by
  rw [occurrences, List.tails_cons, List.countP_cons, occurrences]

theorem occurrences_eq_zero {cs : List Char} (h : ¬ mark <:+: cs) : occurrences mark cs = 0 := by
  refine List.countP_eq_zero.mpr fun t ht hmark => h ?_
  exact (List.isPrefixOf_iff_prefix.mp hmark).isInfix.trans
    ((List.mem_tails t cs).mp ht).isInfix

/-- What follows a character that the mark does not have says nothing about what stands before it. -/
theorem isPrefixOf_append_cons {sep : Char} (hsep : sep ∉ mark) (cs after : List Char) :
    mark.isPrefixOf (cs ++ sep :: after) = mark.isPrefixOf cs := by
  induction cs generalizing mark with
  | nil =>
    cases mark with
    | nil => rfl
    | cons d rest =>
      have hne : d ≠ sep := fun h => hsep (h ▸ List.mem_cons_self)
      simp [List.isPrefixOf_cons_cons, hne]
  | cons c cs ih =>
    cases mark with
    | nil => rfl
    | cons d rest =>
      rw [List.cons_append, List.isPrefixOf_cons_cons, List.isPrefixOf_cons_cons,
        ih fun h => hsep (List.mem_cons_of_mem d h)]

/-- A mark does not run over a character that it does not have. -/
theorem occurrences_append_cons {sep : Char} (hsep : sep ∉ mark) (hmark : mark ≠ [])
    (cs after : List Char) :
    occurrences mark (cs ++ sep :: after) = occurrences mark cs + occurrences mark after := by
  induction cs with
  | nil =>
    have hfirst : mark.isPrefixOf (sep :: after) = false := by
      rw [← List.nil_append (sep :: after), isPrefixOf_append_cons hsep]
      cases mark with
      | nil => exact absurd rfl hmark
      | cons d rest => rfl
    have hnil : occurrences mark [] = 0 :=
      occurrences_eq_zero fun h => hmark (List.eq_nil_of_infix_nil h)
    rw [List.nil_append, occurrences_cons, hfirst, hnil]
    simp
  | cons c cs ih =>
    rw [List.cons_append, occurrences_cons, ← List.cons_append, isPrefixOf_append_cons hsep, ih,
      occurrences_cons]
    omega

end Text

open Text

/-! ## The mark on a line -/

theorem mark_ne_nil : placeholderMark.toList ≠ [] := by decide

/-- How often the mark of a gap stands in a text. -/
def marksIn (s : String) : Nat := occurrences placeholderMark.toList s.toList

/-- What the event writes apart from the mark itself: the text of a gap, or its whole line. -/
def Event.ownText : Event → String
  | .line (.placeholder what) => what
  | e => e.text

/-- The event writes the mark nowhere but in front of a gap. -/
def Event.MarksGaps (e : Event) : Prop := ¬ placeholderMark.toList <:+: e.ownText.toList

instance (e : Event) : Decidable e.MarksGaps :=
  inferInstanceAs (Decidable (¬ placeholderMark.toList <:+: e.ownText.toList))

/-- Where the bytes do not have the mark, the text does not. -/
theorem Event.marksGaps_of_bytes {e : Event} (h : ¬ bytes placeholderMark <:+: bytes e.ownText) :
    e.MarksGaps :=
  not_infix_of_bytes h

/-- The mark stands once on the line of a gap. -/
theorem marksIn_placeholder {what : String} (h : ¬ placeholderMark.toList <:+: what.toList) :
    marksIn (Line.placeholder what).render = 1 := by
  have htext : (Line.placeholder what).render.toList =
      "/*".toList ++ ' ' :: (placeholderMark.toList ++ ':' :: ([] ++ ' ' ::
        (what.toList ++ ' ' :: "*/".toList))) := by
    simp [Line.render]
  have hspace : ' ' ∉ placeholderMark.toList := by decide
  have hcolon : ':' ∉ placeholderMark.toList := by decide
  rw [marksIn, htext, occurrences_append_cons hspace mark_ne_nil,
    occurrences_append_cons hcolon mark_ne_nil, occurrences_append_cons hspace mark_ne_nil,
    occurrences_append_cons hspace mark_ne_nil, occurrences_eq_zero h]
  decide +kernel

theorem Event.MarksGaps.marksIn_text {e : Event} (h : e.MarksGaps) :
    marksIn e.text = if e.isPlaceholder then 1 else 0 := by
  unfold MarksGaps ownText at h
  split at h
  · exact marksIn_placeholder h
  · rename_i hother
    rw [marksIn, occurrences_eq_zero h, if_neg]
    intro hplaceholder
    unfold isPlaceholder at hplaceholder
    split at hplaceholder
    · exact hother _ rfl
    · cases hplaceholder

/-- Indentation marks nothing. -/
theorem occurrences_indentation (level : Nat) (cs : List Char) :
    occurrences placeholderMark.toList ((Page.indentation level).toList ++ cs) =
      occurrences placeholderMark.toList cs := by
  have hspace (cs : List Char) : occurrences placeholderMark.toList (' ' :: cs) =
      occurrences placeholderMark.toList cs := by
    have hspace : ' ' ∉ placeholderMark.toList := by decide
    have hnone : occurrences placeholderMark.toList [] = 0 := occurrences_eq_zero (by decide)
    have h := occurrences_append_cons hspace mark_ne_nil [] cs
    rwa [List.nil_append, hnone, Nat.zero_add] at h
  induction level with
  | zero => rw [Page.indentation, List.replicate_zero, String.join_nil]; rfl
  | succ level ih =>
    rw [Page.indentation, List.replicate_succ, String.join_cons, String.toList_append]
    change occurrences _ (' ' :: ' ' :: ' ' :: ' ' :: _) = _
    rw [hspace, hspace, hspace, hspace]
    exact ih

/-- **The mark stands in a text as often as it was laid out.** -/
theorem marksIn_layOut {events : List Event} (h : ∀ e ∈ events, e.MarksGaps) (level : Nat) :
    marksIn (layOut level events) = events.countP Event.isPlaceholder := by
  induction events generalizing level with
  | nil => rfl
  | cons e rest ih =>
    have he := (h e List.mem_cons_self).marksIn_text
    have hrest := ih (fun e' he' => h e' (List.mem_cons_of_mem e he'))
    unfold marksIn at he hrest ⊢
    rw [layOut, Event.written, List.countP_cons, String.append_assoc, String.append_assoc,
      String.toList_append, occurrences_indentation, String.toList_append, String.toList_append]
    change occurrences _ (e.text.toList ++ '\n' :: (layOut _ rest).toList) = _
    rw [occurrences_append_cons (by decide) mark_ne_nil, he, hrest, Nat.add_comm]

/-! ## Sections without a gap -/

theorem textLines_placeholders (ls : List String) : (textLines ls).placeholders = 0 := by
  rw [textLines, Code.placeholders_ofLines]
  simp [List.countP_eq_zero, Event.isPlaceholder]

theorem directives_placeholders (ls : List String) : (directives ls).placeholders = 0 := by
  rw [directives, Code.placeholders_ofLines]
  simp [List.countP_eq_zero, Event.isPlaceholder]

theorem prelude_placeholders (ctx : Context) : (prelude ctx).placeholders = 0 := by
  have hsink : (errorSinkCode ctx.manifest.output.callbackErrorSink).placeholders = 0 := by
    unfold errorSinkCode
    split
    · rfl
    · exact directives_placeholders _
  simp only [prelude, supportCode, supportFunction, blankLine, Code.placeholders_seq,
    Code.placeholders_blockOf, Code.placeholders_branchOf, List.map_cons, List.map_nil,
    List.sum_cons, List.sum_nil, textLines_placeholders, directives_placeholders, hsink]
  rfl

theorem slotArena_placeholders (ctx : Context) (slots : List CallbackSlot) :
    (slotArena ctx slots).placeholders = 0 := by
  unfold slotArena
  split
  · rfl
  · simp only [slotBindCode, Code.placeholders_seq, Code.placeholders_blockOf,
      Code.placeholders_branchOf, Code.placeholders_ofLines, List.map_cons, List.map_nil,
      List.sum_cons, List.sum_nil, textLines_placeholders]
    simp [banner, List.countP_eq_zero, List.countP_append, Event.isPlaceholder]

theorem prototypesCode_placeholders (structs : List StructBinding) :
    (prototypesCode structs).placeholders = 0 := by
  unfold prototypesCode
  split
  · rfl
  · have hlines : (Code.ofLines (structs.flatMap fun s => structPrototypes s.native)).placeholders =
        0 :=
      Code.ofLines_placeholders (by simp [structPrototypes])
    simp only [Code.placeholders_seq, List.map_cons, List.map_nil, List.sum_cons, hlines]
    rfl

theorem metatablesCode_placeholders (structs : List StructBinding) :
    (metatablesCode structs).placeholders = 0 := by
  unfold metatablesCode
  split
  · rfl
  · have hlines : (Code.ofLines (structs.flatMap metatableLines)).placeholders = 0 := by
      refine Code.ofLines_placeholders fun what hmem => ?_
      obtain ⟨s, -, hmem⟩ := List.mem_flatMap.mp hmem
      unfold metatableLines at hmem
      split at hmem <;> simp [metamethod, popOne] at hmem
    simp only [Code.placeholders_seq, List.map_cons, List.map_nil, List.sum_cons,
      Code.placeholders_blockOf, hlines]
    rfl

theorem registrationCode_placeholders (ctx : Context) (b : Bindings) :
    (registrationCode ctx b).placeholders = 0 := by
  have hextras : (if ctx.manifest.output.extraRegistrations.isEmpty then Code.done
      else blankLine).placeholders = 0 := by
    split <;> rfl
  unfold registrationCode
  simp only [Code.placeholders_seq, Code.placeholders_blockOf, List.map_cons, List.map_nil,
    List.sum_cons, List.sum_nil, hextras]
  rw [Code.ofLines_placeholders (by simp), Code.ofLines_placeholders (by simp [functionEntries])]
  rfl

theorem entryPointCode_placeholders (ctx : Context) (b : Bindings) :
    (entryPointCode ctx b).placeholders = 0 := by
  have hregistrars : ∀ what, Line.placeholder what ∉ registrarCalls b := by simp [registrarCalls]
  have hmetatables : ∀ what, Line.placeholder what ∉ metatableCall b := by
    intro what hmem
    unfold metatableCall at hmem
    split at hmem <;> simp at hmem
  unfold entryPointCode
  dsimp only
  simp only [Code.placeholders_seq, List.map_cons, List.map_nil, List.sum_cons, List.sum_nil]
  split <;>
  · rw [Code.placeholders_blockOf, Code.ofLines_placeholders]
    · rfl
    · simp [hregistrars, hmetatables, popOne]

/-! ## The count of a run -/

/-- The gaps of a file are those of its chunks. -/
theorem cFile_placeholders (ctx : Context) (slots : List CallbackSlot) (b : Bindings) :
    (cFile ctx slots b).placeholders = (b.chunks.map Code.placeholders).sum := by
  simp only [cFile, Code.placeholders_seq, List.map_cons, List.map_nil, List.sum_cons,
    List.sum_nil, prelude_placeholders, prototypesCode_placeholders, slotArena_placeholders,
    metatablesCode_placeholders, registrationCode_placeholders, entryPointCode_placeholders]
  rw [sectionBanner, Code.ofLines_placeholders (by simp [banner])]
  simp

/-- **Every gap is counted, and nothing else**, if the mark stands nowhere but in front of gaps. What is
counted are the counters of the chunks' own pages: what a declaration marked before it failed, and what a
struct marked in a round that was not the last, is neither in the text nor in the number. -/
theorem placeholders_counted (i : Interface) (m : Manifest)
    (h : ∀ e ∈ (moduleFile i m).events, e.MarksGaps) :
    (generate i m).placeholders =
        occurrences placeholderMark.toList (generate i m).code.toList ∧
      (generate i m).placeholders =
        ((moduleBindings i m).2.chunks.map fun c => c.page.placeholders).sum ∧
      ∀ p : Problem, (problemComment p).page.placeholders = 0 := by
  refine ⟨?_, ?_, fun p => ?_⟩
  · have hcode : (generate i m).code = layOut 0 (moduleFile i m).events :=
      (moduleFile i m).text_eq
    have hcount : (generate i m).placeholders = (moduleFile i m).placeholders := rfl
    rw [hcode, hcount, Code.placeholders_eq]
    exact (marksIn_layOut h 0).symm
  · have hpages : ∀ c : Code, c.page.placeholders = c.placeholders := fun c =>
      congrArg Page.placeholders c.page_eq
    rw [funext hpages]
    unfold generate moduleBindings
    rcases Classifying.fresh (bindAll i m) with ⟨ctx, slots, b⟩
    exact cFile_placeholders ctx slots b
  · rw [Code.page_eq]
    exact Code.ofLines_placeholders (by simp)

/-- A struct and a function that mark gaps before they fail, and a function that marks one and does not. -/
def ragged : Interface where
  decls :=
    [.struct ⟨"Maze", [⟨"walls", "int**"⟩, ⟨"gate", "void"⟩], []⟩,
     .function
      { name := "enter", type := "void (int**)", returnType := "void"
        params := [⟨"walls", "int**", false, false, false⟩], variadic := false },
     .function
      { name := "leave", type := "void (int**, void)", returnType := "void"
        params := [⟨"walls", "int**", false, false, false⟩, ⟨"gate", "void", false, false, false⟩]
        variadic := false }]

/-- What was marked before a failure is not counted. -/
theorem placeholders_counted_ragged :
    (∀ e ∈ (moduleFile ragged {}).events, e.MarksGaps) ∧
      (generate ragged {}).problems.map (·.name) = ["Maze", "leave"] ∧
      (generate ragged {}).placeholders = 1 ∧
      ((generate ragged {}).placeholders =
          occurrences placeholderMark.toList (generate ragged {}).code.toList ∧
        (generate ragged {}).placeholders =
          ((moduleBindings ragged {}).2.chunks.map fun c => c.page.placeholders).sum ∧
        ∀ p : Problem, (problemComment p).page.placeholders = 0) := by
  have hbytes : ∀ e ∈ (moduleFile ragged {}).events,
      ¬ bytes placeholderMark <:+: bytes e.ownText := by
    decide +kernel
  have hmarks : ∀ e ∈ (moduleFile ragged {}).events, e.MarksGaps := fun e he =>
    Event.marksGaps_of_bytes (hbytes e he)
  exact ⟨hmarks, by decide +kernel, by decide +kernel, placeholders_counted ragged {} hmarks⟩

end LuaGlue
