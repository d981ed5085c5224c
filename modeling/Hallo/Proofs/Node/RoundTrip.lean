import Hallo.Proofs.Grammar.Parse
import Hallo.Proofs.Node.Printing
import Mathlib

/-!
Printing a program and parsing it again gives the program back.
-/
namespace Hallo

open Bite

namespace Prints

variable {first second : List Char} {ls us : List Lexeme}

theorem keyword (k : Keyword) (hprints : Prints first ls) :
    Prints (k.text.toList ++ ' ' :: first) (.keyword k :: ls) := by
  refine ⟨by simp, fun {more} hmore => ?_⟩
  have hspells := (Spells.keyword k).append (hprints.space hmore)
  simpa using hspells

/-- Two printed parts with a space between them. -/
theorem beside (hfirst : Prints first ls) (hsecond : Prints second us)
    (hhead : ∀ more : List Char, (second ++ more).head? ≠ some 'd') :
    Prints (first ++ ' ' :: second) (ls ++ us) := by
  refine ⟨by simp [hfirst.ne_nil], fun {more} hmore => ?_⟩
  have hbehind : Breaks (' ' :: (second ++ more)) := .inr (.inr (.inr (.inr ⟨rfl, hhead more⟩)))
  have hspells := (hfirst.spells hbehind).append (hsecond.space hmore)
  simpa using hspells

theorem assigned (hprints : Prints first ls) :
    Prints ('=' :: ' ' :: first) (.mark .assign :: ls) := by
  refine ⟨by simp, fun {more} hmore => ?_⟩
  have hspells := (Spells.mark .assign).append (hprints.space hmore)
  simpa [Mark.char] using hspells

end Prints

namespace Grammar

/-- Statements behind a line break are statements. -/
theorem Following.statements {ls : List Lexeme} {nodes : List Node}
    (hfollowing : Following ls nodes) (hls : ls ≠ []) :
    ∃ ts, ls = .mark .lineBreak :: ts ∧ Statements ts nodes := by
  cases hfollowing with
  | done => exact absurd rfl hls
  | lineBreak => exact ⟨[], rfl, .empty .done⟩
  | more hstatement hothers => exact ⟨_, rfl, .first hstatement hothers⟩

theorem Factor.expression {ts : List Lexeme} {t : Node} (hfactor : Factor ts t) : Expression ts t :=
  .term (.product (.factor hfactor))

end Grammar

namespace Node

open Grammar

theorem breaks_brokenLines (lines : List String) (more : List Char) :
    Breaks (Text.brokenLines lines ++ '\n' :: more) := by
  cases lines <;> exact .inl rfl

/-- Statements are printed on lines of their own, each behind a line break. -/
theorem printed_lines {nodes : List Node} (hnodes : ∀ node ∈ nodes, Printed Statement node) :
    ∃ lines ls, sources nodes = .ok lines ∧ ls ≠ [] ∧ Following ls nodes ∧
      ∀ more, Spells (Text.brokenLines lines ++ '\n' :: more) ls more := by
  induction nodes with
  | nil =>
    refine ⟨[], [.mark .lineBreak], rfl, by simp, .lineBreak, fun more => ?_⟩
    exact Spells.mark .lineBreak
  | cons node nodes ih =>
    obtain ⟨line, ts, hline, hprints, hstatement⟩ := hnodes node List.mem_cons_self
    obtain ⟨lines, ls, hlines, _, hfollowing, hspells⟩ :=
      ih fun other hmem => hnodes other (List.mem_cons_of_mem node hmem)
    refine ⟨line :: lines, .mark .lineBreak :: (ts ++ ls), ?_, by simp, .more hstatement hfollowing,
      fun more => ?_⟩
    · rw [sources, hline, hlines]
      rfl
    · have hall := (Spells.mark .lineBreak).append
        ((hprints.spells (breaks_brokenLines lines more)).append (hspells more))
      simpa [Text.brokenLines, Mark.char] using hall

theorem printed_block {body : List Node} (hbody : ∀ statement ∈ body, Printed Statement statement) :
    ∃ text ls, (Node.block body).source = .ok text ∧ Prints text.toList ls ∧
      Block ls (.block body) ∧
      ∀ more : List Char, (text.toList ++ more).head? ≠ some 'd' := by
  obtain ⟨lines, ls, hlines, _, hfollowing, hspells⟩ := printed_lines hbody
  have hsource : (Node.block body).source =
      .ok (Text.joined "\n" (Keyword.blockOpen.text :: (lines ++ [Keyword.blockClose.text]))) := by
    rw [source, hlines]
    rfl
  have hchars :
    (Text.joined "\n" (Keyword.blockOpen.text :: (lines ++ [Keyword.blockClose.text]))).toList =
      Keyword.blockOpen.text.toList ++
        (Text.brokenLines lines ++ '\n' :: Keyword.blockClose.text.toList) := by
    rw [Text.toList_joined_lines]
    simp [Text.brokenLines]
  refine ⟨_, _, hsource, ⟨by simp, fun {more} _ => ?_⟩, .block (.empty hfollowing), fun more => ?_⟩
  · rw [hchars]
    have hall := (Spells.keyword .blockOpen).append
      ((hspells (Keyword.blockClose.text.toList ++ more)).append (Spells.keyword .blockClose))
    simpa using hall
  · rw [hchars]
    simp [Keyword.text]

/-- Names in a row are printed with commas between them. -/
theorem printed_names {name : String} {names : List String}
    (hnames : ∀ other ∈ name :: names, IsName other ∧ other ≠ ":") :
    ∃ ls, Prints (Text.joined ", " (name :: names)).toList ls ∧ Names ls (name :: names) := by
  induction names generalizing name with
  | nil =>
    obtain ⟨hname, hcolon⟩ := hnames name List.mem_cons_self
    exact ⟨[.name name], .name hname hcolon, .last name⟩
  | cons next names ih =>
    obtain ⟨hname, hcolon⟩ := hnames name List.mem_cons_self
    obtain ⟨ls, hprints, hothers⟩ := ih fun other hmem =>
      hnames other (List.mem_cons_of_mem name hmem)
    refine ⟨.name name :: .mark .comma :: ls, ?_, .more name hothers⟩
    rw [Text.toList_joined_cons]
    exact (Prints.name hname hcolon).comma hprints

theorem printed_parameters {params : List String}
    (hparams : ∀ param ∈ params, IsName param ∧ param ≠ ":") :
    ∃ ls, Prints ('(' :: ((Text.joined ", " params).toList ++ [')'])) ls ∧
      Parameters ls params := by
  cases params with
  | nil => exact ⟨_, .parentheses (.nil _), .none⟩
  | cons name names =>
    obtain ⟨ls, hprints, hnames⟩ := printed_names hparams
    exact ⟨_, .parentheses (hprints.spells (.inr (.inr (.inl rfl)))), .some hnames⟩

theorem printed_assign {target : String} {value : Node} (htarget : IsName target)
    (hcolon : target ≠ ":") (hvalue : Printed Factor value) :
    Printed Statement (.assign target value) := by
  obtain ⟨text, ls, htext, hprints, hspells⟩ := hvalue
  refine ⟨target ++ " = " ++ text, _, ?_, ?_, .assign target hspells.expression⟩
  · rw [source, htext]
    rfl
  · simpa using (Prints.name htarget hcolon).beside hprints.assigned (by simp)

/-- A keyword, a condition and a body, as branches and loops are written. -/
theorem printed_conditional {t test : Node} {body : List Node} (k : Keyword)
    (hsource : ∀ {first second : String}, test.source = .ok first → (Node.block body).source =
      .ok second → t.source = .ok (k.text ++ " " ++ first ++ " " ++ second))
    (hspells : ∀ {ts us : List Lexeme}, Expression ts test → Block us (.block body) →
      Statement (.keyword k :: (ts ++ us)) t)
    (htest : Printed Factor test) (hbody : ∀ statement ∈ body, Printed Statement statement) :
    Printed Statement t := by
  obtain ⟨first, ts, hfirst, hts, hleft⟩ := htest
  obtain ⟨second, us, hsecond, hus, hright, hhead⟩ := printed_block hbody
  refine ⟨_, _, hsource hfirst hsecond, ?_, hspells hleft.expression hright⟩
  simpa using (hts.beside hus hhead).keyword k

theorem printed_declare {name : String} {params : List String} {body : List Node}
    (hname : IsName name) (hcolon : name ≠ ":")
    (hparams : ∀ param ∈ params, IsName param ∧ param ≠ ":") (hnodup : params.Nodup)
    (hbody : ∀ statement ∈ body, Printed Statement statement) :
    Printed Statement (.declare name params (.block body)) := by
  obtain ⟨ts, hts, hparameters⟩ := printed_parameters hparams
  obtain ⟨text, us, htext, hus, hblock, hhead⟩ := printed_block hbody
  refine ⟨Keyword.function.text ++ " " ++ name ++ "(" ++ Text.joined ", " params ++ ") " ++ text,
    _, ?_, ?_, .declare name hparameters hnodup hblock⟩
  · rw [source, htext]
    rfl
  · simpa using ((hts.call hname hcolon).beside hus hhead).keyword .function

theorem printed_giveBack {value : Node} (hvalue : Printed Factor value) :
    Printed Statement (.giveBack value) := by
  obtain ⟨text, ls, htext, hprints, hspells⟩ := hvalue
  refine ⟨Keyword.giveBack.text ++ " " ++ text, _, ?_, ?_, .giveBack hspells.expression⟩
  · rw [source, htext]
    rfl
  · simpa using hprints.keyword .giveBack

/-- The names of a statement in a list are among the names of all. -/
theorem notMem_names {name : String} {nodes : List Node} (hnames : name ∉ namesAll nodes) :
    ∀ t ∈ nodes, name ∉ t.names :=
  fun _ hmem hname => hnames (names_subset_namesAll hmem hname)

/-- Every statement is printed as one. -/
theorem IsStatement.printed {t : Node} (hstatement : IsStatement t) (hcolon : ":" ∉ t.names) :
    Printed Statement t := by
  induction hstatement with
  | call hcallee hargs =>
    rw [names, List.mem_cons, not_or] at hcolon
    refine (printed_call hcallee (Ne.symm hcolon.1) fun arg hmem => ?_).2
    exact (hargs arg hmem).printed (notMem_names hcolon.2 arg hmem)
  | assign htarget hvalue =>
    rw [names, List.mem_cons, not_or] at hcolon
    exact printed_assign htarget (Ne.symm hcolon.1) (hvalue.printed hcolon.2)
  | declare hname hparams hnodup _ ih =>
    rw [names, names, List.mem_cons, List.mem_append, not_or, not_or] at hcolon
    refine printed_declare hname (Ne.symm hcolon.1) (fun param hmem =>
      ⟨hparams param hmem, ?_⟩) hnodup
      fun statement hmem => ih statement hmem (notMem_names hcolon.2.2 statement hmem)
    rintro rfl
    exact hcolon.2.1 hmem
  | branch htest _ ih =>
    rw [names, names, List.mem_append, not_or] at hcolon
    refine printed_conditional .branch (fun hfirst hsecond => ?_) .branch (htest.printed hcolon.1)
      fun statement hmem => ih statement hmem (notMem_names hcolon.2 statement hmem)
    rw [source, hfirst, hsecond]
    rfl
  | loop htest _ ih =>
    rw [names, names, List.mem_append, not_or] at hcolon
    refine printed_conditional .loop (fun hfirst hsecond => ?_) .loop (htest.printed hcolon.1)
      fun statement hmem => ih statement hmem (notMem_names hcolon.2 statement hmem)
    rw [source, hfirst, hsecond]
    rfl
  | giveBack hvalue =>
    rw [names] at hcolon
    exact printed_giveBack (hvalue.printed hcolon)

/-- A list of printed statements is written as a program, from which it is parsed. -/
theorem parse_of_printed {nodes : List Node} (hnodes : ∀ t ∈ nodes, Printed Statement t) :
    ∃ text, programSource nodes = .ok text ∧ parse text = .ok nodes := by
  obtain ⟨lines, ls, hlines, hne, hfollowing, hspells⟩ := printed_lines hnodes
  obtain ⟨ts, rfl, hstatements⟩ := hfollowing.statements hne
  have hsource : programSource nodes =
      .ok (Text.joined "\n" (Keyword.greeting.text :: (lines ++ [Keyword.farewell.text]))) := by
    rw [programSource, hlines]
    rfl
  refine ⟨_, hsource, ?_⟩
  have hall : Spells
      (Text.joined "\n" (Keyword.greeting.text :: (lines ++ [Keyword.farewell.text]))).toList
      (.keyword .greeting :: .mark .lineBreak :: (ts ++ [.keyword .farewell])) [] := by
    have hfarewell : Spells (Keyword.farewell.text.toList ++ []) [.keyword .farewell] [] :=
      Spells.keyword .farewell
    have hparts := (Spells.keyword .greeting).append ((hspells _).append hfarewell)
    rw [Text.toList_joined_lines]
    simpa [Text.brokenLines] using hparts
  obtain ⟨hending, hlexemes⟩ := Scan.lexemes_of_spells hall
  refine parse_eq_ok_iff_program.2 ⟨hending, ?_⟩
  rw [hlexemes]
  simpa using Program.program hstatements

/-- What a scan that reached the end of input has found is spelled as such lexemes are. -/
theorem plausible_listed {source : String} {finish : Token}
    (hending : (Scan.ofSource source).ending = .ok finish) :
    ∀ l ∈ (Scan.ofSource source).listed.map Token.lexeme, l.Plausible := by
  intro l hmem
  rw [Scan.lexemes_listed hending, List.mem_append, List.mem_singleton] at hmem
  rcases hmem with hmem | rfl
  · obtain ⟨token, htoken, rfl⟩ := List.mem_map.1 hmem
    exact Cursor.plausible_of_mem_scanWithin htoken
  · rw [(Feed.proper_ofSource source).lexeme_ending finish hending]
    trivial

/-- Parsed statements are statements of programs. -/
theorem isStatement_of_parse {source : String} {nodes : List Node}
    (hparse : parse source = .ok nodes) :
    ∀ t ∈ nodes, IsStatement t := by
  obtain ⟨⟨finish, hending⟩, hprogram⟩ := parse_eq_ok_iff_program.1 hparse
  exact hprogram.isStatement (plausible_listed hending)

/-- What was parsed can be written again, unless a name in it is a lone colon, and parsing what
    was written gives it back. -/
theorem parse_programSource {source : String} {nodes : List Node}
    (hparse : parse source = .ok nodes) (hcolon : ∀ name ∈ namesAll nodes, name ≠ ":") :
    ∃ text, programSource nodes = .ok text ∧ parse text = .ok nodes := by
  refine parse_of_printed fun t hmem => ?_
  refine (isStatement_of_parse hparse t hmem).printed ?_
  exact notMem_names (fun hname => hcolon ":" hname rfl) t hmem

theorem parse_programSource_text :
    ∃ text,
      programSource [.assign "t" (.binary (.var "n") "-" (.call "f" [.literal (.text "a\nb")]))] =
        .ok text ∧
      parse text =
        .ok [.assign "t" (.binary (.var "n") "-" (.call "f" [.literal (.text "a\nb")]))] := by
  have hparse : parse "hallo\nsetze t auf n-f(<a\nb>)\nreicht dann auch mal" =
      .ok [.assign "t" (.binary (.var "n") "-" (.call "f" [.literal (.text "a\nb")]))] := by
    cbv
  exact parse_programSource hparse (by simp [namesAll, names])

end Node

end Hallo
