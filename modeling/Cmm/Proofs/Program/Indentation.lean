import Cmm.Proofs.Program.Lines

/-!
# The indentation of programs

A line of a program is indented by one tab width for every brace that is open in front of it, beside
the indentation of the whole, and nothing else depends on these two.
-/

namespace Cmm

/-! ## Texts of lines -/

namespace Line

def bare : Line → List Char
  | .empty => []
  | .filled _ items => (Layout.chars items).dropLast

def width (tab indent : Int) : Line → Int
  | .empty => 0
  | .filled depth _ => indent + tab * depth

def text (tab indent : Int) (l : Line) : List Char :=
  Text.indented (l.width tab indent).toNat l.bare

theorem bare_filled {depth : Nat} {items : List Layout.Item} {text : List Char}
    (h : Layout.chars items = text ++ ['\n']) : (filled depth items).bare = text := by
  rw [bare, h, List.dropLast_concat]

end Line

namespace Lined

variable {d d' : Int} {lines : List Line}

theorem chars_items (h : Lined d lines d') (tab indent : Int) :
    Layout.chars (lines.flatMap (Line.items tab indent)) =
      Text.terminated (lines.map (Line.text tab indent)) := by
  induction h with
  | nil => rfl
  | empty _ ih =>
      rw [List.flatMap_cons, Layout.chars_append, ih, List.map_cons, Text.terminated_cons]
      rfl
  | @filled _ _ depth items _ _ _ hchars _ _ _ _ ih =>
      have hitems : Layout.chars ((Line.filled depth items).items tab indent) =
          List.replicate (indent + tab * depth).toNat ' ' ++ Layout.chars items := rfl
      rw [List.flatMap_cons, Layout.chars_append, ih, List.map_cons, Text.terminated_cons, hitems,
        Line.text, Line.bare_filled hchars, hchars]
      simp [Text.indented, Line.width]

theorem bare_spec (h : Lined d lines d') : ∀ l ∈ lines,
    '\n' ∉ l.bare ∧ l.bare.head? ≠ some ' ' ∧ (l.bare = [] → l = .empty) := by
  induction h with
  | nil => exact List.forall_mem_nil _
  | empty _ ih => exact List.forall_mem_cons.2 ⟨by simp [Line.bare], ih⟩
  | filled hchars hline hc _ _ ih =>
      refine List.forall_mem_cons.2 ⟨?_, ih⟩
      rw [Line.bare_filled hchars]
      exact ⟨hline, by simpa using hc, fun h => absurd h (List.cons_ne_nil _ _)⟩

/-- A line stands as deep as the braces in front of it say. -/
theorem width_eq (h : Lined d lines d') (tab indent : Int) {i : Nat} {l : Line}
    (hl : lines[i]? = some l) (hne : l.bare ≠ []) :
    l.width tab indent = indent + tab *
      (d + braces ((lines.take i).flatMap fun l => lexemesOf l.bare) -
        if l.bare.head? = some '\x7d' then 1 else 0) := by
  induction h generalizing i with
  | nil => cases hl
  | empty _ ih =>
      cases i with
      | zero =>
          cases hl
          exact absurd rfl hne
      | succ i => simpa [Line.bare, lexemesOf_nil] using ih hl
  | filled hchars _ _ hdepth _ ih =>
      cases i with
      | zero =>
          cases hl
          rw [Line.bare_filled hchars]
          simp [Line.width, hdepth]
      | succ i =>
          rw [List.take_succ_cons, List.flatMap_cons, Line.bare_filled hchars, braces_append,
            ← Int.add_assoc]
          exact ih hl

end Lined

/-! ## Whole texts -/

/-- A program that was read is printed, as long as its indentations can be written, in lines that
are empty or consist of spaces and of a text that begins with no space.  There is one tab width of
spaces for each brace that the tokens on the lines before open and do not close, beside the
indentation of the whole; a closing brace that begins the line is not open any more.  A negative
number of spaces is none.  Without these spaces the lines are the same for every tab width and every
indentation. -/
theorem print_indented {limits : Limits} {source : String} {p : Program}
    (hp : Program.ofText limits source = .ok p) :
    ∃ bare : List (List Char), ∀ tab indent : Int, Layout.Fits (p.toNode.items tab indent) →
      ∃ text tokens, p.toNode.print tab indent = ⟨text, none⟩ ∧
        (Scan.ofText text.toList).result = .ok tokens ∧
        (text.toList.splitOn '\n').map (List.dropWhile (· = ' ')) = bare ∧
        ∀ (i : Nat) (line : List Char), (text.toList.splitOn '\n')[i]? = some line → line ≠ [] →
          ∃ body : List Char, body ≠ [] ∧ body.head? ≠ some ' ' ∧
            let opened := braces ((tokens.filter fun t => t.position.line ≤ (i : Int)).map
              Token.lexeme)
            let depth := opened - if body.head? = some '\x7d' then 1 else 0
            line = List.replicate (indent + tab * depth).toNat ' ' ++ body := by
  obtain ⟨ls, hsites, hscannable⟩ := Program.exists_builtFrom hp
  have hsites : ∀ x ∈ p.sites, x.2.Scannable := fun x hx => (hsites x hx).scannable hscannable
  have hlined := Program.lined hsites
  have hbare := hlined.bare_spec
  refine ⟨p.lines.map Line.bare ++ [[]], fun tab indent hfits => ?_⟩
  have hspells := spells_program tab indent p hsites
  have hspelled := hspells.spelled
  have hprint : p.toNode.print tab indent = _ := hspells.write hfits
  rw [p.items_eq_lines, hlined.chars_items] at hspelled hprint
  have hlines : ∀ line ∈ p.lines.map (Line.text tab indent), '\n' ∉ line :=
    List.forall_mem_map.2 fun l hl => Text.lineFeed_notMem_indented (hbare l hl).1
  obtain ⟨tokens, htokens, hbraces⟩ := hspelled.exists_tokens hlines
  refine ⟨_, tokens, hprint, ?_⟩
  rw [String.toList_ofList, Text.splitOn_terminated hlines]
  refine ⟨htokens, ?_, fun i line hline hne => ?_⟩
  · rw [List.map_append, List.map_map]
    refine congrArg (· ++ [[]]) (List.map_congr_left fun l hl => ?_)
    exact Text.dropWhile_indented (hbare l hl).2.1 _
  · obtain ⟨l, hl, rfl⟩ : ∃ l, p.lines[i]? = some l ∧ l.text tab indent = line := by
      simpa [List.getElem?_map] using Text.getElem?_of_append_nil hline hne
    have hmem := List.mem_of_getElem? hl
    have hfilled : l.bare ≠ [] := by
      intro hempty
      rw [(hbare l hmem).2.2 hempty] at hne
      exact hne rfl
    refine ⟨l.bare, hfilled, (hbare l hmem).2.1, ?_⟩
    have hopened : braces (((p.lines.map (Line.text tab indent)).take i).flatMap lexemesOf) =
        braces ((p.lines.take i).flatMap fun l => lexemesOf l.bare) := by
      rw [← List.map_take, List.flatMap_map]
      simp only [Line.text, lexemesOf_indented]
    have hwidth := hlined.width_eq tab indent hl hfilled
    rw [Int.zero_add, ← hopened, ← hbraces i] at hwidth
    exact congrArg (fun width : Int => Text.indented width.toNat l.bare) hwidth

private def nestedSource : String :=
  "struct S \x7b int a; \x7d; void f() \x7b if (a) \x7b b++; \x7d else \x7b return; \x7d \x7d"

theorem print_indented_of_nested_blocks : ∃ p : Program, Program.ofText {} nestedSource = .ok p ∧
    Layout.Fits (p.toNode.items 4 0) ∧ Layout.Fits (p.toNode.items 3 (-2)) ∧
    ∃ text text', p.toNode.print 4 0 = ⟨text, none⟩ ∧ p.toNode.print 3 (-2) = ⟨text', none⟩ ∧
      (text.toList.splitOn '\n').map (List.dropWhile (· = ' ')) =
        (text'.toList.splitOn '\n').map (List.dropWhile (· = ' ')) := by
  have hread : (match Program.ofText {} nestedSource with
      | .ok p => decide (p.toNode.nesting ≤ 2)
      | .error _ => false) = true := by
    decide +kernel
  split at hread
  · rename_i p hp
    have hnesting : p.toNode.nesting ≤ 2 := by simpa using hread
    have hfits : ∀ tab indent : Int, (∀ k ≤ 2, fitsIndex (indent + (k : Nat) * tab) = true) →
        Layout.Fits (p.toNode.items tab indent) := fun tab indent h =>
      (p.toNode.indentedBy_items tab indent).fits fun k hk => h k (Nat.le_trans hk hnesting)
    have hwide : Layout.Fits (p.toNode.items 4 0) := hfits 4 0 (by decide)
    have hnegative : Layout.Fits (p.toNode.items 3 (-2)) := hfits 3 (-2) (by decide)
    obtain ⟨bare, hbare⟩ := print_indented hp
    obtain ⟨text, -, htext, -, hlines, -⟩ := hbare 4 0 hwide
    obtain ⟨text', -, htext', -, hlines', -⟩ := hbare 3 (-2) hnegative
    exact ⟨p, hp, hwide, hnegative, text, text', htext, htext', hlines.trans hlines'.symm⟩
  · cases hread

end Cmm
