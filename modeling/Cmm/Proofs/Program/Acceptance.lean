import Cmm.Proofs.Program.Guided

/-!
# The programs that are accepted

With room for all tokens, the parser accepts exactly the sentences of the grammar.  Whatever the
limits are, an unexpected token is the first one that no sentence goes on with.
-/

namespace Cmm

def kindsToEnd (tokens : List Token) : List Kind :=
  (tokens.map Token.kind).takeWhile (· ≠ .endOfInput)

def closedKinds (tokens : List Token) : List Kind := (closeInput tokens).map Token.kind

private theorem prefix_of_prefix_concat {α : Type} {u v : List α} {a : α}
    (h : u <+: v ++ [a]) (ha : a ∉ u) : u <+: v := by
  rcases List.prefix_concat_iff.1 h with rfl | h
  · simp at ha
  · exact h

theorem eq_of_concat_prefix_concat {α : Type} {u v : List α} {a : α}
    (h : u ++ [a] <+: v ++ [a]) (ha : a ∉ v) : u = v := by
  rcases List.prefix_concat_iff.1 h with h | h
  · exact List.append_cancel_right h
  · exact absurd (h.subset (by simp)) ha

namespace Parser

open Goal

theorem yields_program_end {limits : Limits} (c : Cursor) :
    Yields c (program limits) fun _ _ d => d.current.kind = .endOfInput :=
  .current (.bind (.measured (yields_declarationsIn c)) fun _ _ _ _ h => .pure h)

theorem runs_program {roomy : Prop} (limits : Limits) {c : Cursor}
    (hroom : roomy → limits.Room c 0) :
    Runs c (program limits)
      (fun _ u d => d.current.kind = .endOfInput ∧ Derives .program (u.map Token.kind))
      (fun e u d d' => e.StopsAt d d' ∧ (roomy → e.cause.isLimit = false) ∧
        (e.cause.isLimit = false →
          (∃ v, Derives .program v ∧ u.map Token.kind <+: v) ∧
            ¬∃ v, Derives .program v ∧
              u.map Token.kind ++ [d.current.kind] <+: v ++ [.endOfInput])) := by
  have outside : ∀ {u : List Token} {d : Cursor}, c.Reads u d →
      Kind.endOfInput ∉ u.map Token.kind := by
    intro u d hu hmem
    obtain ⟨t, ht, hk⟩ := List.mem_map.1 hmem
    exact hu.inside t ht hk
  refine (Runs.and (guided_program hroom) (yields_program_end c)).imp ?_ ?_
  · rintro p u d hu ⟨⟨-, hgoals⟩, hend⟩
    refine ⟨hend, ?_⟩
    have hleft : leftover start c.kinds = d.after.map Token.kind := by
      have hgoals := hgoals []
      rw [List.append_nil, List.append_nil, d.kinds_eq_cons, hend] at hgoals
      have hstop : next [.token .endOfInput] .endOfInput = some [] := rfl
      rw [hgoals, leftover_of_next hstop, leftover_nil]
    obtain ⟨w, rest, hw, hafter, -⟩ := exists_of_leftover start c.kinds
    have hw' : w = u.map Token.kind ++ [.endOfInput] := by
      rw [hleft, hu.kinds, d.kinds_eq_cons, hend] at hw
      exact List.append_cancel_right (hw.symm.trans (List.append_cons ..))
    obtain ⟨v, hv, hprefix⟩ := exists_sentence hafter
    rw [hw'] at hprefix
    exact eq_of_concat_prefix_concat hprefix hv.endOfInput_notMem ▸ hv
  · rintro e u d d' hu ⟨hstops, hlimits, hgoals⟩
    refine ⟨hstops, hlimits, fun hlimit => ?_⟩
    have hleft : leftover start c.kinds = d.kinds := by
      have hgoals := hgoals hlimit []
      rwa [List.append_nil] at hgoals
    obtain ⟨w, rest, hw, hafter, hnext⟩ := exists_of_leftover start c.kinds
    have hw' : w = u.map Token.kind := by
      rw [hleft, hu.kinds] at hw
      exact (List.append_cancel_right hw).symm
    subst hw'
    constructor
    · obtain ⟨v, hv, hprefix⟩ := exists_sentence hafter
      exact ⟨v, hv, prefix_of_prefix_concat hprefix (outside hu)⟩
    · refine not_sentence ?_
      rw [after_append, hafter, Option.bind_some, after_cons,
        hnext _ _ (hleft.trans d.kinds_eq_cons)]
      rfl

end Parser

/-! ## Lists of tokens -/

theorem takeWhile_closedKinds (tokens : List Token) :
    (closedKinds tokens).takeWhile (· ≠ .endOfInput) = kindsToEnd tokens := by
  unfold closedKinds kindsToEnd closeInput
  cases h : tokens.getLast? with
  | none =>
      rw [List.getLast?_eq_none_iff.1 h]
      rfl
  | some last =>
      dsimp only
      split
      · rfl
      · have hend : [Token.endOfInput last.position].map Token.kind = [.endOfInput] := rfl
        rw [List.map_append, hend, List.takeWhile_append]
        split
        · rename_i hall
          rw [(List.takeWhile_prefix _).eq_of_length hall]
          simp
        · rfl

theorem kinds_ofTokens (tokens : List Token) :
    (Cursor.ofTokens tokens).kinds = closedKinds tokens := by
  rw [Cursor.kinds, Cursor.ahead_ofTokens, closedKinds]

theorem endOfInput_notMem_kindsToEnd (tokens : List Token) :
    Kind.endOfInput ∉ kindsToEnd tokens := by
  intro h
  have hall := List.all_takeWhile (p := (· ≠ Kind.endOfInput)) (l := tokens.map Token.kind)
  simpa using List.all_eq_true.1 hall _ h

/-- The tokens that a parser is given go on with an end behind those up to the first end. -/
theorem closedKinds_eq_append (tokens : List Token) :
    ∃ rest, closedKinds tokens = kindsToEnd tokens ++ .endOfInput :: rest := by
  have hclosed := Cursor.closed_ofTokens tokens
  rw [Cursor.Closed, kinds_ofTokens] at hclosed
  have hsplit := List.takeWhile_append_dropWhile (p := (· ≠ Kind.endOfInput))
    (l := closedKinds tokens)
  rw [takeWhile_closedKinds] at hsplit
  cases hdrop : (closedKinds tokens).dropWhile (· ≠ .endOfInput) with
  | nil =>
      rw [hdrop, List.append_nil] at hsplit
      rw [← hsplit] at hclosed
      exact absurd (List.mem_of_getLast? hclosed) (endOfInput_notMem_kindsToEnd tokens)
  | cons k rest =>
      have hk := List.head?_dropWhile_not (· ≠ Kind.endOfInput) (closedKinds tokens)
      rw [hdrop] at hk hsplit
      obtain rfl : k = .endOfInput := by simpa using hk
      exact ⟨rest, hsplit.symm⟩

theorem length_closeInput_le (tokens : List Token) :
    (closeInput tokens).length ≤ tokens.length + 1 := by
  unfold closeInput
  split
  · simp
  · split <;> simp

theorem room_ofTokens {limits : Limits} {tokens : List Token}
    (hdepth : tokens.length < limits.depth) (hheight : tokens.length < limits.height) :
    limits.Room (Cursor.ofTokens tokens) 0 := by
  have hlength := length_closeInput_le tokens
  rw [← Cursor.ahead_ofTokens, Cursor.length_ahead] at hlength
  rw [Limits.Room, Cursor.depth_ofTokens]
  omega

theorem concat_prefix_of_reads {tokens u : List Token} {d : Cursor}
    (hu : (Cursor.ofTokens tokens).Reads u d) :
    u.map Token.kind ++ [d.current.kind] <+: kindsToEnd tokens ++ [.endOfInput] := by
  obtain ⟨rest, hrest⟩ := closedKinds_eq_append tokens
  have hkinds := hu.kinds
  rw [kinds_ofTokens, d.kinds_eq_cons, hrest] at hkinds
  rcases List.append_eq_append_iff.1 hkinds with ⟨v, hv, hrest⟩ | ⟨v, hv, hrest⟩
  · cases v with
    | nil =>
        rw [List.append_nil] at hv
        exact ⟨[], by rw [List.append_nil, hv, (List.cons.inj hrest).1]⟩
    | cons k v =>
        obtain ⟨t, ht, hk⟩ := List.mem_map.1 (hv ▸ List.mem_append_right _ (.head v))
        exact absurd (hk.trans (List.cons.inj hrest).1.symm) (hu.inside t ht)
  · cases v with
    | nil =>
        rw [List.append_nil] at hv
        exact ⟨[], by rw [List.append_nil, hv, (List.cons.inj hrest).1]⟩
    | cons k v =>
        rw [hv, (List.cons.inj hrest).1]
        exact ⟨v ++ [.endOfInput], by simp⟩

theorem derives_of_ok {limits : Limits} {tokens : List Token} {p : Program} {d : Cursor}
    (h : Parser.program limits (Cursor.ofTokens tokens) = .ok p d) :
    Derives .program (kindsToEnd tokens) := by
  have hruns := Parser.runs_program limits (fun h : False => h.elim) (Cursor.closed_ofTokens tokens)
  obtain ⟨u, hu, hend, hderives⟩ := hruns.of_ok h
  have hkinds : u.map Token.kind = kindsToEnd tokens :=
    eq_of_concat_prefix_concat (hend ▸ concat_prefix_of_reads hu)
      (endOfInput_notMem_kindsToEnd tokens)
  rwa [hkinds] at hderives

/-- With room for all tokens, the parser gives a program exactly for the lists that go up to their
first end as the grammar says, and it refuses any other list at a token. -/
theorem program_iff_derives (limits : Limits) (tokens : List Token)
    (hdepth : tokens.length < limits.depth) (hheight : tokens.length < limits.height) :
    ((∃ p, Program.ofTokens limits tokens = .ok p) ↔ Derives .program (kindsToEnd tokens)) ∧
      (¬Derives .program (kindsToEnd tokens) → ∃ message t,
        Program.ofTokens limits tokens = .error ⟨.unexpected message, some t⟩) := by
  have hruns := Parser.runs_program limits (fun _ : True => room_ofTokens hdepth hheight)
    (Cursor.closed_ofTokens tokens)
  unfold Program.ofTokens
  cases hrun : Parser.program limits (Cursor.ofTokens tokens) with
  | ok p d =>
      have hderives := derives_of_ok hrun
      exact ⟨⟨fun _ => hderives, fun _ => ⟨p, rfl⟩⟩, fun h => absurd hderives h⟩
  | error e d' =>
      obtain ⟨u, d, hu, hstops, hlimit, hsentence⟩ := hruns.of_error hrun
      have hnot : ¬Derives .program (kindsToEnd tokens) := fun hw =>
        (hsentence (hlimit trivial)).2 ⟨_, hw, concat_prefix_of_reads hu⟩
      refine ⟨⟨?_, fun h => absurd h hnot⟩, fun _ => ?_⟩
      · rintro ⟨p, hp⟩
        cases hp
      · obtain ⟨cause, t⟩ := e
        cases cause with
        | unexpected message =>
            obtain ⟨-, ht⟩ := hstops
            exact ⟨message, d.current, by rw [← ht]⟩
        | tooDeep limit | tooHigh limit => cases hlimit trivial
        | exhausted => exact hstops.elim

theorem program_of_variable : ∃ p, Program.ofTokens {} [⟨.keyword .int "int", .start⟩,
    ⟨.name "x", ⟨1, 5⟩⟩, ⟨.symbol .semicolon ";", ⟨1, 6⟩⟩] = .ok p :=
  (program_iff_derives {} _ (by decide) (by decide)).1.2
    (.program (.manyCons (.varDecl (.typeVar .int)) .manyNil))

end Cmm
