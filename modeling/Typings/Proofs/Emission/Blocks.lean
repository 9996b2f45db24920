import Mathlib.Data.List.Chain
import Mathlib.Data.Option.Basic
import Typings.Proofs.Emission.Comments
import Typings.Proofs.Emission.DeclarationLines

/-!
# Blocks of a document

Declarations are written in blocks, one for each stretch of declarations of the same namespace. What
is in a namespace stands between the line that opens it and the line that closes it; what is in none
stands by itself. The first block ends where the namespace changes for the first time, and what
follows is cut in the same way, so there is one way to cut declarations into blocks.

The white space at the end of a document is dropped, but for one line feed. Since declarations,
helpers and comments end with a visible character, this concerns the empty line after the last of
them only.

## Main definitions

* `Block`: declarations that stand directly in one namespace, or in none.
* `IsCut`: declarations are cut into blocks where the namespace changes.
* `Block.lines`, `blockLines`: the lines of a block, and of a document of blocks.
* `Block.IsWritten`: lines that declare the names of a block.
* `pageText`: the text of lines of which the last is empty.

## Main results

* `IsCut.runsFrom_eq`, `IsCut.eq_of_isCut`: the blocks are the runs, and there is one way to cut.
* `Block.isWritten_lines`: the lines of a block declare its names.
* `IsCut.documentText_eq`: a document is the text of its blocks, and no more is dropped at its end
  than an empty line.
* `emit_blocks`: a document holds each declaration once and in order, in a block of its namespace.
-/

namespace Typings

theorem Text.trimEnd_append {text blanks : String} {c : Char}
    (htext : text.toList.getLast? = some c) (hc : isBlank c = false)
    (hblanks : isBlankText blanks = true) : trimEnd (text ++ blanks) = text := by
  obtain ⟨front, hfront⟩ := List.getLast?_eq_some_iff.mp htext
  have hdropped : ∀ d ∈ blanks.toList.reverse, isBlank d = true := fun d hd =>
    List.all_eq_true.mp hblanks d (List.mem_reverse.mp hd)
  rw [trimEnd, String.toList_append, List.reverse_append, List.dropWhile_append_of_pos hdropped,
    hfront, List.reverse_append, List.reverse_singleton, List.singleton_append,
    List.dropWhile_cons_of_neg (by rw [hc]; exact Bool.false_ne_true), List.reverse_cons,
    List.reverse_reverse, ← hfront, String.ofList_toList]

namespace Emission

variable {names : Names}

/-! ## Declarations cut into blocks -/

/-- Declarations that stand directly in one namespace, or in none. -/
@[ext]
structure Block (names : Names) where
  /-- The namespace. -/
  space : Option String
  declarations : List Declaration
  ne_nil : declarations ≠ []
  /-- All declarations have names, which are in the namespace. -/
  space_eq : ∀ d ∈ declarations, (names.name? d.symbol).map (·.space) = some space

/-- The declarations are cut into the blocks: the namespace changes from each block to the next. -/
structure IsCut (blocks : List (Block names)) (declarations : List Declaration) : Prop where
  flatMap_eq : blocks.flatMap (·.declarations) = declarations
  isChain : blocks.IsChain fun a b => a.space ≠ b.space

namespace Block

theorem spaceOf_eq (b : Block names) {d : Declaration} (h : d ∈ b.declarations) :
    spaceOf names d = b.space := by
  obtain ⟨name, hname, hspace⟩ := Option.map_eq_some_iff.mp (b.space_eq d h)
  rw [spaceOf, hname]
  exact hspace

def run (b : Block names) : Option String × List Declaration :=
  (b.space, b.declarations)

theorem run_injective : Function.Injective (run : Block names → _) := by
  intro b c h
  exact Block.ext (congrArg Prod.fst h) (congrArg Prod.snd h)

/-- Where a block starts, its declarations are the next run, and the loop goes on after them, if the
namespace changes there. -/
theorem runsFrom_eq (b : Block names) {ds rest : List Declaration} {start : Nat}
    (hdrop : ds.drop start = b.declarations ++ rest)
    (hchanges : ∀ d ∈ rest.head?, b.space ≠ spaceOf names d) :
    runsFrom ds (ds.map (spaceOf names)) (List.length_map _) start =
      (b.space, b.declarations) ::
        runsFrom ds (ds.map (spaceOf names)) (List.length_map _)
          (start + b.declarations.length) := by
  have hstart : start < ds.length := by
    have hlength := congrArg List.length hdrop
    have hpos := List.length_pos_of_ne_nil b.ne_nil
    rw [List.length_drop, List.length_append] at hlength
    omega
  have hspace : (ds.map (spaceOf names)).get ⟨start, (List.length_map _).symm ▸ hstart⟩ =
      b.space := by
    have hhead : ds[start]? = b.declarations.head? := by
      rw [← List.head?_drop, hdrop, List.head?_append_of_ne_nil _ b.ne_nil]
    rw [List.get_eq_getElem, List.getElem_map]
    refine b.spaceOf_eq (List.mem_of_mem_head? ?_)
    rw [← hhead, List.getElem?_eq_getElem hstart]
    rfl
  have hrun : (((ds.map (spaceOf names)).drop start).takeWhile (· == b.space)).length =
      b.declarations.length := by
    have hinside : ∀ space ∈ b.declarations.map (spaceOf names), (space == b.space) = true :=
      List.forall_mem_map.mpr fun d hd => beq_iff_eq.mpr (b.spaceOf_eq hd)
    have hrest : (rest.map (spaceOf names)).takeWhile (· == b.space) = [] := by
      cases rest with
      | nil => rfl
      | cons d rest => exact List.takeWhile_cons_of_neg (by simpa using (hchanges d rfl).symm)
    rw [← List.map_drop, hdrop, List.map_append, List.takeWhile_append_of_pos hinside, hrest,
      List.append_nil, List.length_map]
  rw [runsFrom, dif_pos hstart]
  simp only [hspace, hrun, List.extract_eq_take_drop, hdrop, Nat.add_sub_cancel_left,
    List.take_left]

end Block

theorem head?_map_spaceOf (blocks : List (Block names)) :
    (blocks.flatMap (·.declarations)).head?.map (spaceOf names) = blocks.head?.map (·.space) := by
  cases blocks with
  | nil => rfl
  | cons b blocks =>
    rw [List.flatMap_cons, List.head?_append_of_ne_nil _ b.ne_nil, List.head?_eq_some_head b.ne_nil]
    exact congrArg some (b.spaceOf_eq (List.head_mem b.ne_nil))

variable {ds : List Declaration}

theorem isCut_nil_iff : IsCut ([] : List (Block names)) ds ↔ ds = [] :=
  ⟨fun h => h.flatMap_eq.symm, fun h => ⟨h.symm, .nil⟩⟩

/-- A cut consists of the first block and of a cut of the declarations after it, where the namespace
has changed. -/
theorem isCut_cons_iff {b : Block names} {blocks : List (Block names)} :
    IsCut (b :: blocks) ds ↔ ∃ rest, ds = b.declarations ++ rest ∧
      (∀ d ∈ rest.head?, b.space ≠ spaceOf names d) ∧ IsCut blocks rest := by
  have hhead : (∀ c ∈ blocks.head?, b.space ≠ c.space) ↔
      ∀ d ∈ (blocks.flatMap (·.declarations)).head?, b.space ≠ spaceOf names d := by
    calc (∀ c ∈ blocks.head?, b.space ≠ c.space)
      _ ↔ ∀ space ∈ blocks.head?.map (·.space), b.space ≠ space := Option.forall_mem_map.symm
      _ ↔ ∀ space ∈ (blocks.flatMap (·.declarations)).head?.map (spaceOf names),
          b.space ≠ space := by rw [head?_map_spaceOf]
      _ ↔ _ := Option.forall_mem_map
  constructor
  · rintro ⟨rfl, hchain⟩
    obtain ⟨hfirst, hrest⟩ := List.isChain_cons.mp hchain
    exact ⟨_, List.flatMap_cons, hhead.mp hfirst, rfl, hrest⟩
  · rintro ⟨_, rfl, hfirst, rfl, hrest⟩
    exact ⟨List.flatMap_cons, List.isChain_cons.mpr ⟨hhead.mpr hfirst, hrest⟩⟩

/-- Named declarations start with a block after which the namespace changes. -/
theorem exists_first_block {d : Declaration}
    (h : ∀ e ∈ d :: ds, (names.name? e.symbol).isSome = true) :
    ∃ (b : Block names) (rest : List Declaration), d :: ds = b.declarations ++ rest ∧
      ∀ e ∈ rest.head?, b.space ≠ spaceOf names e := by
  let inside := fun e => spaceOf names e == spaceOf names d
  have hsplit : ds.takeWhile inside ++ ds.dropWhile inside = ds := List.takeWhile_append_dropWhile
  have hnamed : ∀ e ∈ d :: ds, (names.name? e.symbol).map (·.space) = some (spaceOf names e) := by
    intro e he
    obtain ⟨name, hname⟩ := Option.isSome_iff_exists.mp (h e he)
    rw [spaceOf, hname]
    rfl
  have hspace : ∀ e ∈ d :: ds.takeWhile inside,
      (names.name? e.symbol).map (·.space) = some (spaceOf names d) := by
    intro e he
    rcases List.mem_cons.mp he with rfl | he
    · exact hnamed e List.mem_cons_self
    · have hinside : inside e = true := List.all_eq_true.mp List.all_takeWhile e he
      rw [hnamed e (List.mem_cons_of_mem _ ((List.takeWhile_sublist _).subset he)),
        beq_iff_eq.mp hinside]
  refine ⟨⟨spaceOf names d, d :: ds.takeWhile inside, List.cons_ne_nil _ _, hspace⟩,
    ds.dropWhile inside, by rw [List.cons_append, hsplit], fun e he => ?_⟩
  have houtside := List.head?_dropWhile_not inside ds
  rw [Option.mem_def.mp he] at houtside
  exact (beq_eq_false_iff_ne.mp houtside).symm

/-- Named declarations can be cut into blocks. -/
theorem exists_isCut (ds : List Declaration) (h : ∀ d ∈ ds, (names.name? d.symbol).isSome = true) :
    ∃ blocks : List (Block names), IsCut blocks ds := by
  induction hlength : ds.length using Nat.strongRecOn generalizing ds with
  | _ n ih =>
    cases ds with
    | nil => exact ⟨[], isCut_nil_iff.mpr rfl⟩
    | cons d ds =>
      obtain ⟨b, rest, hsplit, hchanges⟩ := exists_first_block h
      rw [hsplit] at h hlength ⊢
      have hshorter : rest.length < n := by
        have hpos := List.length_pos_of_ne_nil b.ne_nil
        rw [List.length_append] at hlength
        omega
      obtain ⟨blocks, hblocks⟩ :=
        ih _ hshorter rest (fun e he => h e (List.mem_append_right _ he)) rfl
      exact ⟨b :: blocks, isCut_cons_iff.mpr ⟨rest, rfl, hchanges, hblocks⟩⟩

namespace IsCut

variable {blocks others : List (Block names)} {ds : List Declaration}

/-- The loop finds the blocks of the declarations from where it starts. -/
theorem runsFrom_eq {start : Nat} (h : IsCut blocks (ds.drop start)) :
    runsFrom ds (ds.map (spaceOf names)) (List.length_map _) start = blocks.map (·.run) := by
  induction blocks generalizing start with
  | nil =>
    rw [runsFrom, dif_neg (Nat.not_lt.mpr (List.drop_eq_nil_iff.mp (isCut_nil_iff.mp h)))]
    rfl
  | cons b blocks ih =>
    obtain ⟨rest, hdrop, hchanges, hrest⟩ := isCut_cons_iff.mp h
    have hnext : ds.drop (start + b.declarations.length) = rest := by
      rw [← List.drop_drop, hdrop, List.drop_left]
    rw [b.runsFrom_eq hdrop hchanges, ih (hnext ▸ hrest)]
    rfl

/-- The blocks are the runs. -/
theorem spaceRuns_eq (h : IsCut blocks ds) : spaceRuns names ds = blocks.map (·.run) :=
  runsFrom_eq h

/-- There is only one way to cut declarations into blocks. -/
theorem eq_of_isCut (h : IsCut blocks ds) (hother : IsCut others ds) : others = blocks := by
  apply Block.run_injective.list_map
  rw [← h.spaceRuns_eq, ← hother.spaceRuns_eq]

end IsCut

/-! ## Blocks as text -/

def Block.lines (options : EmitOptions) (b : Block names) : List String :=
  match b.space with
  | some space =>
    (exportText options.exportDeclarations ++ "namespace " ++ space ++ " \x7b") :: "" ::
      b.declarations.flatMap ((printer options names).declaration 1 true) ++ ["\x7d", ""]
  | none =>
    b.declarations.flatMap ((printer options names).declaration 0 options.exportDeclarations)

/-- Lines that declare the name of a declaration, which is in the namespace of the block. -/
def Block.DeclaredBy (options : EmitOptions) (b : Block names) (level : Nat) (exported : Bool)
    (d : Declaration) (lines : List String) : Prop :=
  ∃ name, names.name? d.symbol = some ⟨b.space, name⟩ ∧
    Declares options.indent (printer options names).name level exported name d lines

/-- How a block is written: each declaration once and in order, between the lines that open and
close the namespace. -/
inductive Block.IsWritten (options : EmitOptions) (b : Block names) : List String → Prop where
  | inside {space : String} {parts : List (List String)} (hspace : b.space = some space)
    (hparts : List.Forall₂ (b.DeclaredBy options 1 true) b.declarations parts) :
    b.IsWritten options
      ((exportText options.exportDeclarations ++ "namespace " ++ space ++ " \x7b") :: "" ::
        parts.flatten ++ ["\x7d", ""])
  | outside {parts : List (List String)} (hspace : b.space = none)
    (hparts : List.Forall₂ (b.DeclaredBy options 0 options.exportDeclarations)
      b.declarations parts) :
    b.IsWritten options parts.flatten

theorem Block.isWritten_lines (options : EmitOptions) (b : Block names) :
    b.IsWritten options (b.lines options) := by
  have hparts : ∀ (level : Nat) (exported : Bool),
      List.Forall₂ (b.DeclaredBy options level exported) b.declarations
        (b.declarations.map ((printer options names).declaration level exported)) := by
    intro level exported
    refine List.forall₂_map_right_iff.mpr (List.forall₂_same.mpr fun d hd => ?_)
    obtain ⟨⟨_, name⟩, hname, rfl⟩ := Option.map_eq_some_iff.mp (b.space_eq d hd)
    have hsimple : (printer options names).simpleName d.symbol = name := by simp [printer, hname]
    exact ⟨name, hname, hsimple ▸ declares_declaration (printer options names) level exported d⟩
  unfold Block.lines
  split
  case h_1 space hspace => exact .inside hspace (hparts 1 true)
  case h_2 hspace => exact .outside hspace (hparts 0 options.exportDeclarations)

/-- The text of lines of which the last is empty and not written. Even without lines there is one
line feed. -/
def pageText (lines : List String) : String :=
  if lines.isEmpty then "\n" else String.join (lines.dropLast.map (· ++ "\n"))

theorem Block.runLines_eq (options : EmitOptions) (b : Block names) :
    runLines options names b.run = b.lines options := by
  rw [run, Block.lines]
  cases b.space <;> rfl

/-- If there are lines, the last one is empty and the one before it ends with a visible
character. -/
def IsFinished (lines : List String) : Prop :=
  lines = [] ∨ ∃ front last c, lines = front ++ [last, ""] ∧ last.toList.getLast? = some c ∧
    Text.isBlank c = false

namespace IsFinished

theorem append {l r : List String} (hl : IsFinished l) (hr : IsFinished r) :
    IsFinished (l ++ r) := by
  rcases hr with rfl | ⟨front, last, c, rfl, hlast, hc⟩
  · rwa [List.append_nil]
  · exact .inr ⟨l ++ front, last, c, by rw [List.append_assoc], hlast, hc⟩

theorem flatMap {α : Type} {f : α → List String} {as : List α} (h : ∀ a ∈ as, IsFinished (f a)) :
    IsFinished (as.flatMap f) := by
  induction as with
  | nil => exact .inl rfl
  | cons a as ih =>
    obtain ⟨ha, has⟩ := List.forall_mem_cons.mp h
    exact ha.append (ih has)

theorem of_line {printer : Printer} {level : Nat} {text : String} {c : Char} (front : List String)
    (htext : text.toList.getLast? = some c) (hc : Text.isBlank c = false) :
    IsFinished (front ++ [printer.line level text] ++ [""]) := by
  refine .inr ⟨front, printer.line level text, c, by rw [List.append_assoc]; rfl, ?_, hc⟩
  rw [toList_line, List.getLast?_append, htext]
  rfl

/-- Of finished lines, dropping the white space at the end drops the last one, which is empty. -/
theorem trimEnd_eq {lines : List String} (h : IsFinished lines) :
    Text.trimEnd (String.join (lines.map (· ++ "\n"))) ++ "\n" = pageText lines := by
  rcases h with rfl | ⟨front, last, c, rfl, hlast, hc⟩
  · rfl
  · have htext : (String.join (front.map (· ++ "\n")) ++ last).toList.getLast? = some c := by
      rw [String.toList_append, List.getLast?_append, hlast]
      rfl
    have hjoin : String.join ((front ++ [last, ""]).map (· ++ "\n")) =
        String.join (front.map (· ++ "\n")) ++ last ++ "\n\n" := by
      apply String.toList_inj.mp
      simp [String.toList_join]
    rw [hjoin, Text.trimEnd_append htext hc rfl, pageText, if_neg (by simp)]
    apply String.toList_inj.mp
    simp [String.toList_join]

end IsFinished

/-- A declaration ends with a brace or a semicolon, and an empty line after it. -/
theorem isFinished_declaration (printer : Printer) (level : Nat) (exported : Bool)
    (d : Declaration) : IsFinished (printer.declaration level exported d) := by
  have hbrace : "\x7d".toList.getLast? = some '}' := rfl
  cases d with
  | ofData d => exact .of_line _ hbrace (by decide)
  | ofAlias a =>
    refine .of_line (c := ';') _ ?_ (by decide)
    rw [String.toList_append]
    exact List.getLast?_concat
  | ofEnum e => exact .of_line _ hbrace (by decide)

theorem Block.isFinished_lines (options : EmitOptions) (b : Block names) :
    IsFinished (b.lines options) := by
  unfold Block.lines
  split
  · exact .inr ⟨_, "\x7d", '}', rfl, rfl, by decide⟩
  · exact .flatMap fun d _ => isFinished_declaration _ _ _ d

theorem isFinished_fileCommentLines (options : EmitOptions) :
    IsFinished (fileCommentLines options) := by
  unfold fileCommentLines
  split
  case h_1 text _ =>
    refine .inr ⟨[], "/* " ++ commentText text ++ " */", '/', rfl, ?_, by decide⟩
    rw [String.toList_append, List.getLast?_append]
    rfl
  case h_2 => exact .inl rfl

theorem isFinished_helper (helper : Helper) : IsFinished (helper.lines ++ [""]) := by
  cases helper with
  | copyFunctions => exact .inr ⟨copyFunctionLines.dropLast, "\x7d", '}', rfl, rfl, by decide⟩
  | uriEncoding => exact .inr ⟨uriEncodingLines.dropLast, "\x7d", '}', rfl, rfl, by decide⟩

/-- The lines of a document with the given blocks. -/
def blockLines (options : EmitOptions) (blocks : List (Block names)) (helpers : List Helper) :
    List String :=
  fileCommentLines options ++ blocks.flatMap (·.lines options) ++
    helpers.flatMap fun helper => helper.lines ++ [""]

theorem IsCut.documentText_eq {blocks : List (Block names)} {model : OrderedModel}
    (h : IsCut blocks model.declarations) (options : EmitOptions) :
    documentText options names model = pageText (blockLines options blocks model.helpers) := by
  have hlines : documentLines options names model = blockLines options blocks model.helpers := by
    simp only [documentLines, blockLines, h.spaceRuns_eq, List.flatMap_map, Block.runLines_eq]
  have hfinished : IsFinished (blockLines options blocks model.helpers) :=
    ((isFinished_fileCommentLines options).append
      (.flatMap fun b _ => b.isFinished_lines options)).append
      (.flatMap fun helper _ => isFinished_helper helper)
  rw [documentText, hlines]
  exact hfinished.trimEnd_eq

/-- If the declarations have names, writing fails at most for a symbol that is written in one of
them. -/
theorem emit_eq_or {model : OrderedModel} (options : EmitOptions)
    (hnamed : ∀ d ∈ model.declarations, (names.name? d.symbol).isSome = true) :
    emit options names model = .ok (documentText options names model) ∨
      ∃ d ∈ model.declarations, ∃ s ∈ d.symbols, names.name? s = none ∧
        emit options names model = .error (.unresolvedSymbol s) := by
  unfold emit
  split
  case h_1 s hfound =>
    have hnone := List.find?_some hfound
    rw [Option.isNone_iff_eq_none] at hnone
    rcases List.mem_append.mp (List.mem_of_find?_eq_some hfound) with hs | hs
    · obtain ⟨d, hd, rfl⟩ := List.mem_map.mp hs
      exact absurd hnone (Option.isSome_iff_ne_none.mp (hnamed d hd))
    · obtain ⟨d, hd, hs⟩ := List.mem_flatMap.mp hs
      exact .inr ⟨d, hd, s, hs, hnone, rfl⟩
  case h_2 => exact .inl rfl

/-- Named declarations can be cut into blocks in one way, and the runs of a document are these
blocks. The lines of a block declare its names, with their members, directly in the namespace. What
is written is the blocks, between the comment at the top and the helpers: each declaration once and
in order. If there is no document, then because of a symbol without a name that would be written in
a declaration. -/
theorem emit_blocks {names : Names} {model : OrderedModel} (options : EmitOptions)
    (hnamed : ∀ d ∈ model.declarations, (names.name? d.symbol).isSome = true) :
    ∃ blocks : List (Block names),
      IsCut blocks model.declarations ∧
      (∀ others : List (Block names), IsCut others model.declarations → others = blocks) ∧
      spaceRuns names model.declarations = blocks.map (·.run) ∧
      (∀ b ∈ blocks, b.IsWritten options (b.lines options)) ∧
      (emit options names model = .ok (pageText (blockLines options blocks model.helpers)) ∨
        ∃ d ∈ model.declarations, ∃ s ∈ d.symbols, names.name? s = none ∧
          emit options names model = .error (.unresolvedSymbol s)) := by
  obtain ⟨blocks, hcut⟩ := exists_isCut model.declarations hnamed
  refine ⟨blocks, hcut, fun others hothers => hcut.eq_of_isCut hothers, hcut.spaceRuns_eq,
    fun b _ => b.isWritten_lines options, ?_⟩
  rw [← hcut.documentText_eq options]
  exact emit_eq_or options hnamed

/-- A namespace that is left, for another one inside it and for none, is opened again. -/
theorem emit_blocks_reopened :
    let names : Names :=
      ⟨[], [⟨some "a", "A"⟩, ⟨some "a.b", "B"⟩, ⟨some "a.b", "C"⟩, ⟨none, "D"⟩, ⟨some "a", "E"⟩]⟩
    let model : OrderedModel :=
      ⟨(List.range 5).map fun n => .ofEnum { origin := "", symbol := ⟨n⟩ }, [.uriEncoding]⟩
    (∀ d ∈ model.declarations, (names.name? d.symbol).isSome = true) ∧
      ∃ blocks : List (Block names), IsCut blocks model.declarations ∧
        blocks.map (fun b => (b.space, b.declarations.length)) =
          [(some "a", 1), (some "a.b", 2), (none, 1), (some "a", 1)] ∧
        emit {} names model = .ok (pageText (blockLines {} blocks model.helpers)) := by
  intro names model
  have hnamed : ∀ d ∈ model.declarations, (names.name? d.symbol).isSome = true := by decide
  obtain ⟨blocks, hcut, -, hruns, -, htext⟩ := emit_blocks {} hnamed
  refine ⟨hnamed, blocks, hcut, ?_, htext.resolve_right ?_⟩
  · calc blocks.map (fun b => (b.space, b.declarations.length))
      _ = (blocks.map (·.run)).map fun run => (run.1, run.2.length) := by simp [Block.run]
      _ = _ := by rw [← hruns]; decide +kernel
  · rintro ⟨d, hd, s, hs, -⟩
    obtain ⟨n, -, rfl⟩ := List.mem_map.mp hd
    cases hs

end Emission

end Typings
