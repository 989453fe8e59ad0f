import Cmm.Node.Layout
import Cmm.Proofs.Token.Spelled

/-!
# Layouts that spell lexemes

A layout without faults whose indentations can be written is written as its characters.  It spells
some lexemes if its characters do; blanks are never part of a lexeme, so indentation plays no role.
-/

namespace Cmm.Layout

def Item.chars : Item → List Char
  | .text content => content.toList
  | .indent width => List.replicate width.toNat ' '
  | .fault _ => []

def chars (items : List Item) : List Char := items.flatMap Item.chars

def Fits (items : List Item) : Prop := ∀ width, Item.indent width ∈ items → fitsIndex width = true

theorem writeTo_of_fits {items : List Item} (hfits : Fits items)
    (hfault : ∀ f, Item.fault f ∉ items) (written : String) :
    writeTo written items = ⟨written ++ String.ofList (chars items), none⟩ := by
  induction items generalizing written with
  | nil => simp [writeTo, chars]
  | cons item rest ih =>
      have hrest := ih (fun width hw => hfits width (List.mem_cons_of_mem _ hw))
        fun f hf => hfault f (List.mem_cons_of_mem _ hf)
      cases item with
      | text content =>
          rw [writeTo, hrest]
          simp [chars, Item.chars, String.append_assoc]
      | indent width =>
          rw [writeTo, if_pos (hfits width (by simp)), hrest]
          simp [chars, Item.chars, spaces, String.append_assoc]
      | fault f => exact absurd (List.mem_cons_self) (hfault f)

theorem writeTo_of_not_fits {items : List Item} (hfits : ¬Fits items)
    (hfault : ∀ f, Item.fault f ∉ items) (written : String) :
    (writeTo written items).fault = some .indentation := by
  induction items generalizing written with
  | nil => exact absurd nofun hfits
  | cons item rest ih =>
      have hrest : ∀ f, Item.fault f ∉ rest := fun f hf => hfault f (List.mem_cons_of_mem _ hf)
      cases item with
      | text content =>
          refine ih (fun h => hfits ?_) hrest _
          exact fun width hw => h width ((List.mem_cons.1 hw).resolve_left nofun)
      | indent width =>
          rw [writeTo]
          split
          · rename_i hwidth
            refine ih (fun h => hfits ?_) hrest _
            intro width' hw
            rcases List.mem_cons.1 hw with heq | hw
            · cases heq
              exact hwidth
            · exact h width' hw
          · rfl
      | fault f => exact absurd (List.mem_cons_self) (hfault f)

/-- A layout without faults spells some lexemes, in front of what may follow it. -/
structure Spells (items : List Item) (lexemes : List Lexeme) (next : Char → Prop) : Prop where
  faultless : ∀ f, Item.fault f ∉ items
  spelled : Spelled (chars items) lexemes next

namespace Spells

variable {items items' : List Item} {ls ls' : List Lexeme} {next next' : Char → Prop}

theorem write (h : Spells items ls next) (hfits : Fits items) :
    write items = ⟨String.ofList (chars items), none⟩ := by
  rw [Layout.write, writeTo_of_fits hfits h.faultless]
  simp

theorem write_of_not_fits (h : Spells items ls next) (hfits : ¬Fits items) :
    (Layout.write items).fault = some .indentation :=
  writeTo_of_not_fits hfits h.faultless ""

theorem nil : Spells [] [] next := ⟨by simp, .nil⟩

theorem mono (h : Spells items ls next) (hnext : ∀ c, next' c → next c) : Spells items ls next' :=
  ⟨h.faultless, h.spelled.mono hnext⟩

theorem text {content : String} (h : Spelled content.toList ls next) :
    Spells [.text content] ls next :=
  ⟨by simp, by simpa [chars, Item.chars] using h⟩

theorem indent (width : Int) : Spells [.indent width] [] fun _ => True :=
  ⟨by simp, by simpa [chars, Item.chars] using spelled_spaces width.toNat⟩

private theorem faultless_append (h : Spells items ls next) (h' : Spells items' ls' next') :
    ∀ f, Item.fault f ∉ items ++ items' := by
  intro f hf
  rcases List.mem_append.1 hf with hf | hf
  · exact h.faultless f hf
  · exact h'.faultless f hf

theorem before (h : Spells items ls fun _ => True) (h' : Spells items' ls' next') :
    Spells (items ++ items') (ls ++ ls') next' :=
  ⟨faultless_append h h', by simpa [chars] using h.spelled.before h'.spelled⟩

theorem beforeHead {c : Char} {more : List Char} (h : Spells items ls next)
    (h' : Spells items' ls' next') (hhead : chars items' = c :: more) (hc : next c) :
    Spells (items ++ items') (ls ++ ls') next' :=
  ⟨faultless_append h h', by
    have := h.spelled.beforeHead h'.spelled (by simp [hhead]) (by simpa [hhead] using hc)
    simpa [chars] using this⟩

end Spells

end Cmm.Layout
