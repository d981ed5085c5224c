import Hallo.Proofs.Node.Headline

/-!
Outlines of trees. An outline has one line for each node, and the indentation tells how deep the
node lies; so the lines of a node's parts are those behind its own that are indented further, and a
tree is found again from its outline.
-/
namespace Hallo.Node

mutual

/-- The nodes of a tree with their depths, each node before its parts and the parts from left to
    right. The callee of a call and the target of an assignment are names that the node carries, and
    no nodes of their own. -/
def listing (depth : Nat) (node : Node) : List (Nat × Node) :=
  (depth, node) ::
    match node with
    | .bare | .empty | .literal _ | .var _ => []
    | .block statements => listingAll (depth + 1) statements
    | .unary _ operand => listing (depth + 1) operand
    | .binary left _ right => listing (depth + 1) left ++ listing (depth + 1) right
    | .compare left right _ => listing (depth + 1) left ++ listing (depth + 1) right
    | .call _ arguments => listingAll (depth + 1) arguments
    | .assign _ value => listing (depth + 1) value
    | .declare _ _ body => listing (depth + 1) body
    | .branch test body => listing (depth + 1) test ++ listing (depth + 1) body
    | .loop test body => listing (depth + 1) test ++ listing (depth + 1) body
    | .giveBack value => listing (depth + 1) value

/-- The nodes of several trees, one tree after the other. -/
def listingAll (depth : Nat) : List Node → List (Nat × Node)
  | [] => []
  | node :: nodes => listing depth node ++ listingAll depth nodes

end

/-- A node is listed before its parts, and these one level deeper. -/
theorem listing_eq (depth : Nat) (t : Node) :
    t.listing depth = (depth, t) :: listingAll (depth + 1) t.children := by
  cases t <;> simp [listing, listingAll, children, parts]

/-- What holds of several trees if it holds of the parts of the first and of the others, holds of
    all trees. -/
theorem forest_induction {P : Nat → List Node → Prop} (nil : ∀ depth, P depth [])
    (cons : ∀ depth t nodes, P (depth + 1) t.children → P depth nodes → P depth (t :: nodes))
    (depth : Nat) (nodes : List Node) : P depth nodes := by
  induction hlength : (listingAll depth nodes).length using Nat.strong_induction_on
    generalizing depth nodes with
  | _ length ih =>
    cases nodes with
    | nil => exact nil depth
    | cons t nodes =>
      rw [listingAll, listing_eq, List.cons_append, List.length_cons, List.length_append] at hlength
      exact cons depth t nodes (ih _ (by omega) (depth + 1) t.children rfl)
        (ih _ (by omega) depth nodes rfl)

theorem outlineAll_nil (level : Int) : outlineAll level [] = pure [] := by
  rw [outlineAll]
  rfl

theorem outlineAll_cons (level : Int) (t : Node) (nodes : List Node) :
    outlineAll level (t :: nodes) = do
      let first ← t.outlineLines level
      let others ← outlineAll level nodes
      return first ++ others := by
  rw [outlineAll]

/-- The line of a node comes before the outlines of its parts, and these are one level deeper. -/
theorem outlineLines_eq (level : Int) (t : Node) :
    t.outlineLines level = do
      let line ← t.outlineLine level
      let lines ← outlineAll (level + 1) t.children
      return line :: lines := by
  rw [outlineLines]
  congr 1
  funext line
  cases t <;> simp [outlineAll_nil, outlineAll_cons, children, parts]

/-- An outline is the listing, line by line; it fails at the first line that cannot be written. -/
theorem outlineAll_eq_mapM (depth : Nat) (nodes : List Node) :
    outlineAll depth nodes = (listingAll depth nodes).mapM fun entry =>
      entry.2.outlineLine entry.1 := by
  induction depth, nodes using forest_induction with
  | nil depth => exact outlineAll_nil depth
  | cons depth t nodes ihchildren ihnodes =>
    push_cast at ihchildren
    rw [outlineAll_cons, outlineLines_eq, listingAll, listing_eq, ihchildren, ihnodes]
    simp

/-- What is listed occurs in the tree. -/
theorem occurs_of_mem_listingAll {root : Node} (depth : Nat) (nodes : List Node)
    (hnodes : ∀ t ∈ nodes, ∃ place, root.Occurs place t) :
    ∀ entry ∈ listingAll depth nodes, ∃ place, root.Occurs place entry.2 := by
  induction depth, nodes using forest_induction with
  | nil depth => simp [listingAll]
  | cons depth t nodes ihchildren ihnodes =>
    obtain ⟨⟨place, ht⟩, hothers⟩ := List.forall_mem_cons.1 hnodes
    have hchildren : ∀ child ∈ t.children, ∃ place, root.Occurs place child := by
      intro child hchild
      obtain ⟨part, hpart, rfl⟩ := List.mem_map.1 hchild
      exact ⟨part.1, ht.part hpart⟩
    rw [listingAll, listing_eq]
    intro entry hentry
    rcases List.mem_append.1 hentry with hfirst | hrest
    · rcases List.mem_cons.1 hfirst with rfl | hpart
      · exact ⟨place, ht⟩
      · exact ihchildren hchildren entry hpart
    · exact ihnodes hothers entry hrest

/-- Everything listed of some trees has a line. -/
def AllLegible (depth : Nat) (nodes : List Node) : Prop :=
  ∀ entry ∈ listingAll depth nodes, entry.2.Legible

theorem AllLegible.of_cons {depth : Nat} {t : Node} {nodes : List Node}
    (hall : AllLegible depth (t :: nodes)) :
    t.Legible ∧ AllLegible (depth + 1) t.children ∧ AllLegible depth nodes := by
  rw [AllLegible, listingAll, listing_eq] at hall
  obtain ⟨htree, hnodes⟩ := List.forall_mem_append.1 hall
  obtain ⟨ht, hchildren⟩ := List.forall_mem_cons.1 htree
  exact ⟨ht, hchildren, hnodes⟩

theorem allLegible_of_parse {source : String} {nodes : List Node}
    (hparse : parse source = .ok nodes) :
    AllLegible 0 [.block nodes] := by
  intro entry hentry
  have hroot : ∀ t ∈ [Node.block nodes], ∃ place, (Node.block nodes).Occurs place t := by
    intro t ht
    obtain rfl := List.mem_singleton.1 ht
    exact ⟨.body, .root⟩
  obtain ⟨place, hoccurs⟩ := occurs_of_mem_listingAll 0 _ hroot entry hentry
  exact (derivedAt_of_parse hparse hoccurs).legible

/-- The depths and the titles of some trees, which is what an outline of them shows. -/
def tags (depth : Nat) (nodes : List Node) : List (Nat × String) :=
  (listingAll depth nodes).map fun entry => (entry.1, entry.2.title)

theorem tags_cons (depth : Nat) (t : Node) (nodes : List Node) :
    tags depth (t :: nodes) = (depth, t.title) ::
      (tags (depth + 1) t.children ++ tags depth nodes) := by
  simp [tags, listingAll, listing_eq]

/-- Tags that begin, if they do, above a depth: they cannot belong to trees at that depth. -/
def BeginsAbove (depth : Nat) (rest : List (Nat × String)) : Prop :=
  ∀ tag ∈ rest.head?, tag.1 < depth

theorem BeginsAbove.ne_cons {depth : Nat} {rest others : List (Nat × String)} {title : String}
    (hrest : BeginsAbove depth rest) : rest ≠ (depth, title) :: others := by
  rintro rfl
  exact absurd (hrest _ rfl) (lt_irrefl depth)

theorem BeginsAbove.tags_append {depth : Nat} {rest : List (Nat × String)}
    (hrest : BeginsAbove depth rest) (nodes : List Node) :
    BeginsAbove (depth + 1) (tags depth nodes ++ rest) := by
  cases nodes with
  | nil => exact fun tag htag => (hrest tag htag).trans (Nat.lt_succ_self depth)
  | cons t nodes =>
    rw [tags_cons]
    rintro tag ⟨⟩
    exact Nat.lt_succ_self depth

/-- The trees at a depth are found again from their tags, whatever follows above that depth. -/
theorem eq_of_tags_append_eq (depth : Nat) (nodes : List Node) (hnodes : AllLegible depth nodes)
    {others : List Node} (hothers : AllLegible depth others) {rest rest' : List (Nat × String)}
    (hrest : BeginsAbove depth rest) (hrest' : BeginsAbove depth rest')
    (htags : tags depth nodes ++ rest = tags depth others ++ rest') :
    nodes = others ∧ rest = rest' := by
  induction depth, nodes using forest_induction generalizing others rest rest' with
  | nil depth =>
    cases others with
    | nil => exact ⟨rfl, htags⟩
    | cons u others =>
      rw [tags_cons] at htags
      exact absurd htags hrest.ne_cons
  | cons depth t nodes ihchildren ihnodes =>
    obtain ⟨ht, hchildren, hnodes⟩ := hnodes.of_cons
    cases others with
    | nil =>
      rw [tags_cons] at htags
      exact absurd htags.symm hrest'.ne_cons
    | cons u others =>
      obtain ⟨hu, hchildren', hothers⟩ := hothers.of_cons
      rw [tags_cons, tags_cons, List.cons_append, List.cons_append, List.append_assoc,
        List.append_assoc] at htags
      obtain ⟨htag, hbehind⟩ := List.cons.inj htags
      -- The parts end where the depth falls back to that of the tree itself.
      obtain ⟨hparts, hsiblings⟩ := ihchildren hchildren hchildren' (hrest.tags_append nodes)
        (hrest'.tags_append others) hbehind
      obtain ⟨rfl, hrests⟩ := ihnodes hnodes hothers hrest hrest' hsiblings
      exact ⟨by rw [eq_of_title_eq ht hu (Prod.mk.inj htag).2 hparts], hrests⟩

/-- The line of a node at a depth. -/
def line (depth : Nat) (t : Node) : String :=
  indentation depth ++ t.title

theorem toList_line (depth : Nat) (t : Node) :
    (t.line depth).toList = List.replicate (2 * depth) ' ' ++ t.title.toList := by
  have hlevel : (2 * (depth : Int)).toNat = 2 * depth := by omega
  rw [line, indentation, String.toList_append, String.toList_ofList, hlevel]

theorem exists_ne_space (t : Node) : ∃ c rest, t.title.toList = c :: rest ∧ c ≠ ' ' := by
  obtain ⟨c, rest, hchars, hupper⟩ := t.exists_capital
  refine ⟨c, rest, hchars, ?_⟩
  rintro rfl
  exact absurd hupper (by decide)

/-- How often a character is repeated at the beginning can be told if another one follows. -/
theorem replicate_append_inj {c a b : Char} {m n : Nat} {r s : List Char} (ha : a ≠ c) (hb : b ≠ c)
    (heq : List.replicate m c ++ a :: r = List.replicate n c ++ b :: s) :
    m = n ∧ a :: r = b :: s := by
  induction m generalizing n with
  | zero =>
    cases n with
    | zero => exact ⟨rfl, heq⟩
    | succ n => exact absurd (List.cons.inj heq).1 ha
  | succ m ih =>
    cases n with
    | zero => exact absurd (List.cons.inj heq).1.symm hb
    | succ n =>
      obtain ⟨rfl, hrest⟩ := ih (List.cons.inj heq).2
      exact ⟨rfl, hrest⟩

/-- A line tells the depth of its node and the title. -/
theorem line_inj {depth depth' : Nat} {t u : Node} (hline : t.line depth = u.line depth') :
    (depth, t.title) = (depth', u.title) := by
  obtain ⟨c, rest, hchars, hc⟩ := t.exists_ne_space
  obtain ⟨d, rest', hchars', hd⟩ := u.exists_ne_space
  have heq := congrArg String.toList hline
  rw [toList_line, toList_line, hchars, hchars'] at heq
  obtain ⟨hdepth, htitle⟩ := replicate_append_inj hc hd heq
  rw [← hchars, ← hchars'] at htitle
  rw [String.toList_injective htitle, show depth = depth' by omega]

theorem line_ne_empty (depth : Nat) (t : Node) : t.line depth ≠ "" := by
  obtain ⟨c, rest, hchars, _⟩ := t.exists_ne_space
  intro hempty
  have hnil := congrArg String.toList hempty
  rw [toList_line, hchars] at hnil
  simp at hnil

theorem Legible.lineBreak_notMem_line {t : Node} (ht : t.Legible) (depth : Nat) :
    '\n' ∉ (t.line depth).toList := by
  rw [toList_line]
  simp [ht.lineBreak_notMem_title]

theorem Legible.outlineLine_eq {t : Node} (ht : t.Legible) (depth : Nat) :
    t.outlineLine depth = .ok (t.line depth) := by
  rw [outlineLine, ht.headline_eq]
  rfl

theorem listingAll_singleton (depth : Nat) (t : Node) : listingAll depth [t] = t.listing depth := by
  rw [listingAll, listingAll, List.append_nil]

theorem outlineAll_singleton (level : Int) (t : Node) :
    outlineAll level [t] = t.outlineLines level := by
  rw [outlineAll_cons, outlineAll_nil]
  simp

/-- The lines of a tree, one for each node listed. -/
def lines (t : Node) : List String :=
  (t.listing 0).map fun entry => entry.2.line entry.1

theorem tags_eq_of_lines_eq {t u : Node} (hlines : t.lines = u.lines) :
    tags 0 [t] = tags 0 [u] := by
  rw [lines, lines, ← List.forall₂_eq_eq_eq, List.forall₂_map_left_iff,
    List.forall₂_map_right_iff] at hlines
  rw [tags, tags, listingAll_singleton, listingAll_singleton, ← List.forall₂_eq_eq_eq,
    List.forall₂_map_left_iff, List.forall₂_map_right_iff]
  exact hlines.imp fun _ _ hline => line_inj hline

theorem mapM_eq_ok_map {α β ε : Type} {f : α → Except ε β} {g : α → β} {entries : List α}
    (hentries : ∀ entry ∈ entries, f entry = .ok (g entry)) :
    entries.mapM f = .ok (entries.map g) := by
  induction entries with
  | nil => rfl
  | cons entry entries ih =>
    obtain ⟨hentry, hothers⟩ := List.forall_mem_cons.1 hentries
    rw [List.mapM_cons, hentry, ih hothers]
    rfl

/-- A tree of legible nodes has an outline, and the lines of that text are those of the listing. -/
theorem exists_outline {t : Node} (hlegible : AllLegible 0 [t]) :
    ∃ text, t.outline 0 = .ok text ∧ Text.lines text = t.lines := by
  rw [AllLegible, listingAll_singleton] at hlegible
  have hlines : t.outlineLines 0 = .ok t.lines := by
    have hmapM := outlineAll_eq_mapM 0 [t]
    rw [listingAll_singleton, mapM_eq_ok_map fun entry hentry =>
      (hlegible entry hentry).outlineLine_eq entry.1, outlineAll_singleton] at hmapM
    exact hmapM
  refine ⟨Text.joined "\n" t.lines, by rw [outline, hlines]; rfl, Text.lines_joined ?_⟩
  intro line hline
  obtain ⟨entry, hentry, rfl⟩ := List.mem_map.1 hline
  exact ⟨line_ne_empty _ _, (hlegible entry hentry).lineBreak_notMem_line _⟩

/-- A line for a node at a depth: behind two spaces for each level stands what the node says of
    itself, which does not begin with a space. -/
def IsLineOf (entry : Nat × Node) (line : String) : Prop :=
  ∃ headline, entry.2.headline = .ok headline ∧
    line.toList = List.replicate (2 * entry.1) ' ' ++ headline.toList ∧
      ∃ c rest, headline.toList = c :: rest ∧ c ≠ ' '

theorem Legible.isLineOf {t : Node} (ht : t.Legible) (depth : Nat) :
    IsLineOf (depth, t) (t.line depth) :=
  ⟨t.title, ht.headline_eq, t.toList_line depth, t.exists_ne_space⟩

/-- The outline of a program's tree has one line for each node, indented by its depth; and programs
    with the same outline have the same tree. -/
theorem outline_identifies_tree {source source' : String} {nodes nodes' : List Node}
    (hparse : parse source = .ok nodes) (hparse' : parse source' = .ok nodes') :
    (∃ text, (Node.block nodes).outline 0 = .ok text ∧
      List.Forall₂ IsLineOf ((Node.block nodes).listing 0) (Text.lines text)) ∧
    ((Node.block nodes).outline 0 = (Node.block nodes').outline 0 → nodes = nodes') := by
  have hlegible := allLegible_of_parse hparse
  have hlegible' := allLegible_of_parse hparse'
  obtain ⟨text, houtline, hlines⟩ := exists_outline hlegible
  obtain ⟨text', houtline', hlines'⟩ := exists_outline hlegible'
  refine ⟨⟨text, houtline, ?_⟩, ?_⟩
  · rw [AllLegible, listingAll_singleton] at hlegible
    rw [hlines, lines, List.forall₂_map_right_iff, List.forall₂_same]
    exact fun entry hentry => (hlegible entry hentry).isLineOf entry.1
  · intro hsame
    rw [houtline, houtline'] at hsame
    obtain rfl := Except.ok.inj hsame
    have htags := tags_eq_of_lines_eq (hlines.symm.trans hlines')
    have hnone : BeginsAbove 0 [] := by simp [BeginsAbove]
    obtain ⟨htrees, _⟩ := eq_of_tags_append_eq 0 _ hlegible hlegible' hnone hnone
      (by rw [List.append_nil, List.append_nil, htags])
    simpa using htrees

/-- Programs that differ only in whether a call belongs to the body of a branch differ in their
    outlines. -/
theorem outline_identifies_tree_branch :
    let inside : List Node := [.branch (.var "x") (.block [.call "f" [], .call "g" []])]
    let behind : List Node := [.branch (.var "x") (.block [.call "f" []]), .call "g" []]
    parse "hallo\nfalls x avo\nf()\ng()\ncado\nreicht dann auch mal" = .ok inside ∧
      parse "hallo\nfalls x avo\nf()\ncado\ng()\nreicht dann auch mal" = .ok behind ∧
        (Node.block inside).outline 0 ≠ (Node.block behind).outline 0 := by
  intro inside behind
  have hinside : parse "hallo\nfalls x avo\nf()\ng()\ncado\nreicht dann auch mal" = .ok inside := by
    cbv
  have hbehind : parse "hallo\nfalls x avo\nf()\ncado\ng()\nreicht dann auch mal" = .ok behind := by
    cbv
  refine ⟨hinside, hbehind, fun hsame => ?_⟩
  have htrees : inside = behind := (outline_identifies_tree hinside hbehind).2 hsame
  simp [inside, behind] at htrees

end Hallo.Node
