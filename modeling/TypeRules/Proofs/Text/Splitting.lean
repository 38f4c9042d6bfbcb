import TypeRules.Proofs.Text.Nesting

/-! # Splitting in the open

A text is split by cutting off one piece after the other, and the scan begins anew behind each cut.
A single scan over the whole text makes the same cuts: it stops only where it is outside of brackets
and quotes, and there it does not differ from a scan that has just begun.  Brackets that are closed
without having been opened, or left open at the end, do not change this.

* `openPlaces` lists the places of a separator where one scan from the start of a text is outside of
  everything; `seams` lists the places where pieces meet.
* `cutTopFrom?_eq_head` — a cut is made at the first of these places.
* `openPlaces_of_cut` — behind a cut, the places of the whole text are those of the rest.
* `Splits` is the loop that keeps the byte at which the next piece begins.
* `splitTop_single_scan` is the statement about commas.
-/

namespace TypeRules.Text

/-! ## Places in the open -/

/-- The places of a character where a scan that begins with `n` is outside of brackets and
quotes, counted in characters. -/
def openPlacesFrom (d : Char) (n : Nesting) (cs : List Char) : List Nat :=
  (List.range cs.length).filter fun i => cs[i]? = some d ∧ n.after (cs.take i) = Nesting.top

/-- These places for a scan from the start of a text. -/
def openPlaces (d : Char) (cs : List Char) : List Nat :=
  openPlacesFrom d Nesting.top cs

theorem openPlacesFrom_append (d : Char) (n : Nesting) (l r : List Char) :
    openPlacesFrom d n (l ++ r) =
      openPlacesFrom d n l ++ (openPlacesFrom d (n.after l) r).map (l.length + ·) := by
  rw [openPlacesFrom, List.length_append, List.range_add, List.filter_append, List.filter_map]
  congr 1
  · refine List.filter_congr fun i hi => ?_
    have hlt : i < l.length := List.mem_range.1 hi
    rw [List.getElem?_append_left hlt, List.take_append_of_le_length (Nat.le_of_lt hlt)]
  · rw [openPlacesFrom]
    congr 1
    refine List.filter_congr fun i _ => ?_
    simp only [Function.comp_apply, List.getElem?_append_right (Nat.le_add_right _ _),
      Nat.add_sub_cancel_left, List.take_length_add_append, Nesting.after_append]

theorem openPlacesFrom_singleton (d : Char) (n : Nesting) (c : Char) :
    openPlacesFrom d n [c] = if c = d ∧ n = Nesting.top then [0] else [] := by
  simp only [openPlacesFrom, List.length_singleton, List.range_one, List.filter_cons,
    List.filter_nil, List.getElem?_cons_zero, List.take_zero, Nesting.after_nil,
    Option.some.injEq, decide_eq_true_eq]

theorem openPlacesFrom_cons (d : Char) (n : Nesting) (c : Char) (cs : List Char) :
    openPlacesFrom d n (c :: cs) =
      (if c = d ∧ n = Nesting.top then [0] else []) ++
        (openPlacesFrom d (n.step c) cs).map (1 + ·) := by
  rw [← openPlacesFrom_singleton]
  exact openPlacesFrom_append d n [c] cs

/-! ## Where pieces meet -/

/-- The places of the separators between pieces that are joined with a single character. -/
def seams : List (List Char) → List Nat
  | [] => []
  | [_] => []
  | piece :: pieces => piece.length :: (seams pieces).map (piece.length + 1 + ·)

theorem seams_cons (piece : List Char) {pieces : List (List Char)} (h : pieces ≠ []) :
    seams (piece :: pieces) = piece.length :: (seams pieces).map (piece.length + 1 + ·) := by
  cases pieces with
  | nil => exact absurd rfl h
  | cons => rfl

theorem length_eq_length_seams {pieces : List (List Char)} (h : pieces ≠ []) :
    pieces.length = (seams pieces).length + 1 := by
  induction pieces with
  | nil => exact absurd rfl h
  | cons piece pieces ih =>
    by_cases hnil : pieces = []
    · subst hnil
      rfl
    · rw [seams_cons piece hnil, List.length_cons, List.length_cons, List.length_map, ih hnil]

/-! ## One cut -/

theorem cutTop?_of_cutTopAt? {d : Char} {cs piece rest : List Char}
    (h : cutTopAt? d cs = some (piece, rest)) :
    cutTop? (startsWith d) cs = some (piece, d :: rest) := by
  obtain ⟨⟨l, r⟩, hcut, heq⟩ := Option.map_eq_some_iff.1 h
  cases heq
  obtain ⟨-, hne, hhit⟩ := append_of_cutTopFrom? hcut
  obtain ⟨c, r, rfl⟩ := List.exists_cons_of_ne_nil hne
  obtain rfl : c = d := beq_iff_eq.1 hhit
  exact hcut

/-- In front of the first cut there is nothing to cut. -/
theorem cutTopFrom?_front {d : Char} {n : Nesting} {cs l r : List Char}
    (h : cutTopFrom? (startsWith d) n cs = some (l, r)) :
    cutTopFrom? (startsWith d) n l = none := by
  induction cs generalizing n l with
  | nil => cases h
  | cons c cs ih =>
    rw [cutTopFrom?] at h
    split at h
    · cases h
      rfl
    · next hmiss =>
      obtain ⟨⟨l', r'⟩, hcut, heq⟩ := Option.map_eq_some_iff.1 h
      cases heq
      have hmiss' : ¬ (n.exposes c && startsWith d (c :: l')) = true := hmiss
      rw [cutTopFrom?, if_neg hmiss', ih hcut]
      rfl

theorem cutTopAt?_front {d : Char} {cs piece rest : List Char}
    (h : cutTopAt? d cs = some (piece, rest)) : cutTopAt? d piece = none := by
  have hnone : cutTop? (startsWith d) piece = none := cutTopFrom?_front (cutTop?_of_cutTopAt? h)
  rw [cutTopAt?, hnone]
  rfl

/-- The separator at a cut is in the open, so the scan is outside of everything behind it. -/
theorem exposes_of_cutTopAt? {d : Char} {cs piece rest : List Char}
    (h : cutTopAt? d cs = some (piece, rest)) : (Nesting.top.after piece).exposes d = true :=
  exposes_of_cutTopFrom? (cutTop?_of_cutTopAt? h)

section Separator

variable {d : Char} (hd : Nesting.top.exposes d = true)

include hd

theorem exposes_and_startsWith_iff {n : Nesting} {c : Char} {cs : List Char} :
    (n.exposes c && startsWith d (c :: cs)) = true ↔ c = d ∧ n = Nesting.top := by
  rw [Bool.and_eq_true, startsWith, beq_iff_eq]
  constructor
  · rintro ⟨hexposes, hc⟩
    exact ⟨hc, Nesting.eq_top_of_exposes hexposes⟩
  · rintro ⟨rfl, rfl⟩
    exact ⟨hd, rfl⟩

/-- A text is cut at the first place in the open. -/
theorem cutTopFrom?_eq_head (n : Nesting) (cs : List Char) :
    cutTopFrom? (startsWith d) n cs =
      (openPlacesFrom d n cs).head?.map fun i => (cs.take i, cs.drop i) := by
  induction cs generalizing n with
  | nil => rfl
  | cons c cs ih =>
    rw [cutTopFrom?, openPlacesFrom_cons]
    by_cases h : c = d ∧ n = Nesting.top
    · rw [if_pos ((exposes_and_startsWith_iff hd).2 h), if_pos h]
      rfl
    · rw [if_neg (mt (exposes_and_startsWith_iff hd).1 h), if_neg h, ih, List.nil_append,
        List.head?_map, Option.map_map, Option.map_map]
      congr 1
      funext i
      simp only [Function.comp_apply, Nat.add_comm 1 i, List.take_succ_cons, List.drop_succ_cons]

theorem openPlaces_eq_nil {cs : List Char} (h : cutTopAt? d cs = none) : openPlaces d cs = [] := by
  rwa [cutTopAt?, cutTop?, cutTopFrom?_eq_head hd, Option.map_eq_none_iff, Option.map_eq_none_iff,
    List.head?_eq_none_iff] at h

/-- A cut takes the first place away; the others are where a scan finds them that begins behind the
cut. -/
theorem openPlaces_of_cut {cs piece rest : List Char} (h : cutTopAt? d cs = some (piece, rest)) :
    openPlaces d cs =
      piece.length :: (openPlaces d rest).map (piece.length + 1 + ·) := by
  have hexposes := exposes_of_cutTopAt? h
  have hpiece : openPlacesFrom d Nesting.top piece = [] := openPlaces_eq_nil hd (cutTopAt?_front h)
  have hplace : d = d ∧ Nesting.top.after piece = Nesting.top :=
    ⟨rfl, Nesting.eq_top_of_exposes hexposes⟩
  rw [append_of_cutTopAt? h, openPlaces, openPlacesFrom_append, hpiece, openPlacesFrom_cons,
    if_pos hplace, Nesting.step_of_exposes hexposes]
  simp [openPlaces, Function.comp_def, Nat.add_assoc]

/-! ## All cuts -/

theorem seams_splitTop (cs : List Char) : seams (splitTop d cs) = openPlaces d cs := by
  fun_induction splitTop d cs with
  | case1 cs hcut => rw [openPlaces_eq_nil hd hcut, seams]
  | case2 cs piece rest hcut ih =>
    rw [seams_cons piece (splitTop_ne_nil d rest), ih, openPlaces_of_cut hd hcut]

theorem length_splitTop (cs : List Char) :
    (splitTop d cs).length = (openPlaces d cs).length + 1 := by
  rw [length_eq_length_seams (splitTop_ne_nil d cs), seams_splitTop hd]

end Separator

/-- Nothing is left to cut in a piece. -/
theorem cutTopAt?_of_mem_splitTop {d : Char} {cs piece : List Char} (h : piece ∈ splitTop d cs) :
    cutTopAt? d piece = none := by
  fun_induction splitTop d cs with
  | case1 cs hcut =>
    obtain rfl := List.mem_singleton.1 h
    exact hcut
  | case2 cs first rest hcut ih =>
    cases h with
    | head => exact cutTopAt?_front hcut
    | tail _ h => exact ih h

/-! ## A single scan -/

theorem splitTopOnceFrom_of_none {d : Char} {n : Nesting} {cs : List Char}
    (h : cutTopFrom? (startsWith d) n cs = none) : splitTopOnceFrom d n cs = [cs] := by
  induction cs generalizing n with
  | nil => rfl
  | cons c cs ih =>
    rw [cutTopFrom?] at h
    split at h
    · cases h
    · next hmiss =>
      have hmiss' : ¬ (n.exposes c && c == d) = true := hmiss
      rw [splitTopOnceFrom, if_neg hmiss', ih (Option.map_eq_none_iff.1 h)]

theorem splitTopOnceFrom_of_some {d : Char} {n : Nesting} {cs l r : List Char}
    (h : cutTopFrom? (startsWith d) n cs = some (l, d :: r)) :
    splitTopOnceFrom d n cs = l :: splitTopOnce d r := by
  induction cs generalizing n l with
  | nil => cases h
  | cons c cs ih =>
    rw [cutTopFrom?] at h
    split at h
    · next hhit =>
      cases h
      have hstep := Nesting.step_of_exposes (Bool.and_eq_true_iff.1 hhit).1
      have hhit' : (n.exposes d && d == d) = true := hhit
      rw [splitTopOnceFrom, if_pos hhit', hstep, splitTopOnce]
    · next hmiss =>
      obtain ⟨⟨l', r'⟩, hcut, heq⟩ := Option.map_eq_some_iff.1 h
      cases heq
      have hmiss' : ¬ (n.exposes c && c == d) = true := hmiss
      rw [splitTopOnceFrom, if_neg hmiss', ih hcut]

theorem splitTop_eq_splitTopOnce (d : Char) (cs : List Char) :
    splitTop d cs = splitTopOnce d cs := by
  fun_induction splitTop d cs with
  | case1 cs hcut =>
    have hnone : cutTop? (startsWith d) cs = none := Option.map_eq_none_iff.1 hcut
    rw [splitTopOnce, splitTopOnceFrom_of_none hnone]
  | case2 cs piece rest hcut ih =>
    rw [ih]
    exact (splitTopOnceFrom_of_some (cutTop?_of_cutTopAt? hcut)).symm

/-! ## The loop -/

/-- The length of a text in bytes. -/
def byteLength : List Char → Nat
  | [] => 0
  | c :: cs => c.utf8Size + byteLength cs

/-- A text from one of its bytes on; a text begins neither inside of a character nor behind the
end. -/
def fromByte? : Nat → List Char → Option (List Char)
  | byte, [] => if byte = 0 then some [] else none
  | byte, c :: cs =>
    if byte = 0 then some (c :: cs)
    else if c.utf8Size ≤ byte then fromByte? (byte - c.utf8Size) cs
    else none

/-- Splitting a text from one of its bytes on: after so many cuts, these are the pieces.  A round
scans what begins at `start`; behind a cut the next one begins at the byte after the separator. -/
inductive Splits (d : Char) (cs : List Char) : Nat → Nat → List (List Char) → Prop where
  | last {start : Nat} {rest : List Char} (hrest : fromByte? start cs = some rest)
      (hcut : cutTopAt? d rest = none) : Splits d cs start 0 [rest]
  | cut {start cuts : Nat} {rest piece behind : List Char} {pieces : List (List Char)}
      (hrest : fromByte? start cs = some rest) (hcut : cutTopAt? d rest = some (piece, behind))
      (hpieces : Splits d cs (start + byteLength piece + d.utf8Size) cuts pieces) :
      Splits d cs start (cuts + 1) (piece :: pieces)

theorem byteLength_append (l r : List Char) :
    byteLength (l ++ r) = byteLength l + byteLength r := by
  induction l with
  | nil => exact (Nat.zero_add _).symm
  | cons c l ih => rw [List.cons_append, byteLength, byteLength, ih, Nat.add_assoc]

theorem byteLength_singleton (c : Char) : byteLength [c] = c.utf8Size := rfl

theorem fromByte?_zero (cs : List Char) : fromByte? 0 cs = some cs := by
  cases cs <;> rfl

theorem fromByte?_append (l r : List Char) : fromByte? (byteLength l) (l ++ r) = some r := by
  induction l with
  | nil => exact fromByte?_zero r
  | cons c l ih =>
    have hlength : byteLength (c :: l) = c.utf8Size + byteLength l := rfl
    have hpos := c.utf8Size_pos
    have hne : byteLength (c :: l) ≠ 0 := by omega
    have hle : c.utf8Size ≤ byteLength (c :: l) := by omega
    rw [List.cons_append, fromByte?, if_neg hne, if_pos hle, hlength, Nat.add_sub_cancel_left, ih]

/-- Each round begins at a character, and the last one is the round without a cut. -/
theorem splits_splitTop {d : Char} (hd : Nesting.top.exposes d = true) (front rest : List Char) :
    Splits d (front ++ rest) (byteLength front) (openPlaces d rest).length (splitTop d rest) := by
  fun_induction splitTop d rest generalizing front with
  | case1 rest hcut =>
    rw [openPlaces_eq_nil hd hcut]
    exact .last (fromByte?_append front rest) hcut
  | case2 rest piece behind hcut ih =>
    rw [openPlaces_of_cut hd hcut, List.length_cons, List.length_map]
    refine .cut (fromByte?_append front rest) hcut ?_
    -- The next round has the piece and the separator in front of it as well.
    have hpieces := ih (front ++ piece ++ [d])
    have htext : front ++ piece ++ [d] ++ behind = front ++ rest := by
      rw [append_of_cutTopAt? hcut]
      simp only [List.append_assoc, List.singleton_append]
    rwa [htext, byteLength_append, byteLength_append, byteLength_singleton] at hpieces

theorem Splits.unique {d : Char} {cs : List Char} {start cuts cuts' : Nat}
    {pieces pieces' : List (List Char)} (h : Splits d cs start cuts pieces)
    (h' : Splits d cs start cuts' pieces') : cuts = cuts' ∧ pieces = pieces' := by
  induction h generalizing cuts' pieces' with
  | last hrest hcut =>
    cases h' with
    | last hrest' hcut' =>
      cases hrest.symm.trans hrest'
      exact ⟨rfl, rfl⟩
    | cut hrest' hcut' _ =>
      cases hrest.symm.trans hrest'
      cases hcut.symm.trans hcut'
  | cut hrest hcut _ ih =>
    cases h' with
    | last hrest' hcut' =>
      cases hrest.symm.trans hrest'
      cases hcut.symm.trans hcut'
    | cut hrest' hcut' hpieces' =>
      cases hrest.symm.trans hrest'
      cases hcut.symm.trans hcut'
      obtain ⟨rfl, rfl⟩ := ih hpieces'
      exact ⟨rfl, rfl⟩

/-! ## Main result -/

/-- Cutting off piece by piece is one scan.  The pieces of a text at its commas are those of a
single scan; joined with commas they give the text back; they meet exactly at the commas where one
scan from the start of the text is outside of brackets and quotes; and none of them can be cut again.
There is one more of them than there are such commas, and the loop ends after as many cuts with these
pieces and no others, whatever the text is. -/
theorem splitTop_single_scan (cs : List Char) :
    splitTop ',' cs = splitTopOnce ',' cs ∧
      joinWith [','] (splitTop ',' cs) = cs ∧
      seams (splitTop ',' cs) = openPlaces ',' cs ∧
      (∀ piece ∈ splitTop ',' cs, cutTopAt? ',' piece = none) ∧
      (splitTop ',' cs).length = (openPlaces ',' cs).length + 1 ∧
      ∀ cuts pieces, Splits ',' cs 0 cuts pieces ↔
        cuts = (openPlaces ',' cs).length ∧ pieces = splitTop ',' cs := by
  have hcomma : Nesting.top.exposes ',' = true := by decide
  have hsplits : Splits ',' cs 0 (openPlaces ',' cs).length (splitTop ',' cs) :=
    splits_splitTop hcomma [] cs
  refine ⟨splitTop_eq_splitTopOnce ',' cs, joinWith_splitTop ',' cs, seams_splitTop hcomma cs,
    fun piece hpiece => cutTopAt?_of_mem_splitTop hpiece, length_splitTop hcomma cs,
    fun cuts pieces => ⟨fun h => h.unique hsplits, ?_⟩⟩
  rintro ⟨rfl, rfl⟩
  exact hsplits

/-- A bracket is closed that nothing opened, another one stands in quotes, and the last quote is left
open. -/
theorem splitTop_single_scan_unbalanced :
    splitTop ',' "a>,é(b,\"),\"),c,\"d,".toList =
        ["a>".toList, "é(b,\"),\")".toList, ['c'], "\"d,".toList] ∧
      openPlaces ',' "a>,é(b,\"),\"),c,\"d,".toList = [2, 12, 14] ∧
      cutTopAt? ',' "é(b,\"),\")".toList = none ∧
      Splits ',' "a>,é(b,\"),\"),c,\"d,".toList 0 3
        ["a>".toList, "é(b,\"),\")".toList, ['c'], "\"d,".toList] := by
  obtain ⟨hscan, -, hseams, hpieces, -, hsplits⟩ :=
    splitTop_single_scan "a>,é(b,\"),\"),c,\"d,".toList
  have hsplit : splitTop ',' "a>,é(b,\"),\"),c,\"d,".toList =
      ["a>".toList, "é(b,\"),\")".toList, ['c'], "\"d,".toList] := by
    rw [hscan]
    decide +kernel
  have hplaces : openPlaces ',' "a>,é(b,\"),\"),c,\"d,".toList = [2, 12, 14] := by
    rw [← hseams, hsplit]
    decide +kernel
  refine ⟨hsplit, hplaces, hpieces _ ?_, (hsplits _ _).2 ⟨?_, hsplit.symm⟩⟩
  · rw [hsplit]
    exact .tail _ (.head _)
  · rw [hplaces]
    rfl

end TypeRules.Text
