import Windmill.Lib.JsonText

/-! # A JSON text has one value

Texts that are equal have the same value (`value_eq_of_text_eq`), however they are taken apart. The
induction is over the first one, with what follows in the text; a number ends where no character of
a number follows. -/

namespace Windmill.Lib.JsonUnique

open JsonText List
open Lib.Records (Json)

/-! ### Strings -/

lemma Hex4.append_inj {hex hex' : Hex4} {x x' : List Char}
    (h : hex.digits ++ x = hex'.digits ++ x') : hex.value = hex'.value ∧ x = x' := by
  have hlen : hex.digits.length = hex'.digits.length := hex.length_eq.trans hex'.length_eq.symm
  obtain ⟨hdig, hx⟩ := List.append_inj h hlen
  unfold Hex4.value
  rw [hdig]
  exact ⟨rfl, hx⟩

variable {c : Char} {r r' x x' : List Char} {t : RawJson} {p : Char → Bool}

lemma unicode_ne_pair {hex high low : Hex4} (hc : c.toNat = hex.value)
    (hhigh : 0xd800 ≤ high.value ∧ high.value < 0xdc00) :
    hex.digits ++ x ≠ high.digits ++ '\\' :: 'u' :: (low.digits ++ x') := by
  intro h
  have hval := hc.trans (Hex4.append_inj h).1
  have hvalid : c.toNat.isValidChar := c.valid
  omega

lemma meaning_eq_of_chars_eq {p p' : Piece} (h : p.chars ++ x = p'.chars ++ x') :
    p.meaning = p'.meaning ∧ x = x' := by
  have hshort : ∀ {e c}, (e, c) ∈ shortEscapes → e ≠ 'u' := by
    rintro e c hmem rfl
    simp [shortEscapes] at hmem
  cases p with
  | plain c hc =>
    cases p' with
    | plain c' hc' => exact cons.inj h
    | short e' c' hc' | unicode hex' c' hc' | pair high' low' c' hc' =>
      exact absurd (cons.inj h).1 hc.2
  | short e c hc =>
    cases p' with
    | plain c' hc' => exact absurd (cons.inj h).1.symm hc'.2
    | short e' c' hc' =>
      have hrest := cons.inj (cons.inj h).2
      cases hrest.1
      refine ⟨?_, hrest.2⟩
      have hfun : ∀ x ∈ shortEscapes, ∀ y ∈ shortEscapes, x.1 = y.1 → x.2 = y.2 := by decide
      exact hfun _ hc _ hc' rfl
    | unicode hex' c' hc' | pair high' low' c' hc' =>
      exact absurd (cons.inj (cons.inj h).2).1 (hshort hc)
  | unicode hex c hc =>
    cases p' with
    | plain c' hc' => exact absurd (cons.inj h).1.symm hc'.2
    | short e' c' hc' => exact absurd (cons.inj (cons.inj h).2).1.symm (hshort hc')
    | unicode hex' c' hc' =>
      obtain ⟨hval, hx⟩ := Hex4.append_inj (cons.inj (cons.inj h).2).2
      exact ⟨Char.toNat_inj.mp (hc.trans (hval.trans hc'.symm)), hx⟩
    | pair high' low' c' hc' =>
      simp only [Piece.chars, cons_append, append_assoc, cons.injEq, true_and] at h
      exact absurd h (unicode_ne_pair hc ⟨hc'.1, hc'.2.1⟩)
  | pair high low c hc =>
    cases p' with
    | plain c' hc' => exact absurd (cons.inj h).1.symm hc'.2
    | short e' c' hc' => exact absurd (cons.inj (cons.inj h).2).1.symm (hshort hc')
    | unicode hex' c' hc' =>
      simp only [Piece.chars, cons_append, append_assoc, cons.injEq, true_and] at h
      exact absurd h.symm (unicode_ne_pair hc' ⟨hc.1, hc.2.1⟩)
    | pair high' low' c' hc' =>
      simp only [Piece.chars, cons_append, append_assoc, cons.injEq, true_and] at h
      obtain ⟨hhigh, hrest⟩ := Hex4.append_inj h
      obtain ⟨hlow, hx⟩ := Hex4.append_inj (cons.inj (cons.inj hrest).2).2
      refine ⟨Char.toNat_inj.mp (hc.2.2.2.2.trans (Eq.trans ?_ hc'.2.2.2.2.symm)), hx⟩
      rw [hhigh, hlow]

lemma chars_append_ne_quote {p : Piece} : p.chars ++ x ≠ '\x22' :: r := by
  intro h
  rcases p.cases_chars with ⟨c, hc, rfl⟩ | ⟨cs, hcs, -⟩
  · exact hc.1 (cons.inj h).1
  · rw [hcs] at h
    cases (cons.inj h).1

lemma decode_eq_of_raw_eq : ∀ {ps ps'},
    raw ps ++ '\x22' :: r = raw ps' ++ '\x22' :: r' → decode ps = decode ps' ∧ r = r'
  | [], [], h => ⟨rfl, (cons.inj h).2⟩
  | [], p' :: ps', h => by
    rw [raw_cons, append_assoc] at h
    exact absurd h.symm chars_append_ne_quote
  | p :: ps, [], h => by
    rw [raw_cons, append_assoc] at h
    exact absurd h chars_append_ne_quote
  | p :: ps, p' :: ps', h => by
    rw [raw_cons, raw_cons, append_assoc, append_assoc] at h
    obtain ⟨hmean, hrest⟩ := meaning_eq_of_chars_eq h
    obtain ⟨hdec, hr⟩ := decode_eq_of_raw_eq hrest
    exact ⟨congrArg₂ cons hmean hdec, hr⟩

lemma decode_eq_of_quoted_eq {ps ps'} (h : quoted ps ++ r = quoted ps' ++ r') :
    decode ps = decode ps' ∧ r = r' := by
  simp only [quoted, cons_append, append_assoc, nil_append, cons.injEq, true_and] at h
  exact decode_eq_of_raw_eq h

/-! ### What a text starts with -/

inductive Kind where
  | null
  | bool (b : Bool)
  | number
  | str
  | arr
  | obj

def kind : RawJson → Kind
  | .null => .null
  | .bool b => .bool b
  | .number _ => .number
  | .str _ => .str
  | .arr _ _ => .arr
  | .obj _ _ => .obj

def startKind (c : Char) : Option Kind :=
  if c = 'n' then some .null
  else if c = 't' then some (.bool true)
  else if c = 'f' then some (.bool false)
  else if c = '\x22' then some .str
  else if c = '[' then some .arr
  else if c = '{' then some .obj
  else if isNumberChar c then some .number
  else none

lemma startKind_numberChar (h : isNumberChar c = true) : startKind c = some .number := by
  have hne : ∀ d, isNumberChar d = false → c ≠ d := by
    rintro d hd rfl
    simp [h] at hd
  unfold startKind
  rw [if_neg (hne 'n' (by decide)), if_neg (hne 't' (by decide)), if_neg (hne 'f' (by decide)),
    if_neg (hne '\x22' (by decide)), if_neg (hne '[' (by decide)), if_neg (hne '{' (by decide)),
    if_pos h]

lemma exists_text_eq_cons (t : RawJson) : ∃ c rest, t.text = c :: rest ∧ startKind c = some
    (kind t) := by
  cases t with
  | null | str s | arr ws items | obj ws members => exact ⟨_, _, rfl, rfl⟩
  | bool b => cases b <;> exact ⟨_, _, rfl, rfl⟩
  | number n =>
    obtain ⟨l, hne, hall⟩ := n
    cases l with
    | nil => exact absurd rfl hne
    | cons c l => exact ⟨c, l, rfl, startKind_numberChar (hall c mem_cons_self)⟩

lemma kind_eq_of_text_eq {t'} (h : t.text ++ r = t'.text ++ r') : kind t = kind t' := by
  obtain ⟨c, rest, htext, hkind⟩ := exists_text_eq_cons t
  obtain ⟨c', rest', htext', hkind'⟩ := exists_text_eq_cons t'
  rw [htext, htext'] at h
  cases (cons.inj h).1
  exact Option.some_inj.mp (hkind.symm.trans hkind')

lemma text_append_ne_cons (hc : startKind c = none) : t.text ++ r ≠ c :: x := by
  intro h
  obtain ⟨c', rest, htext, hkind⟩ := exists_text_eq_cons t
  rw [htext] at h
  cases (cons.inj h).1
  simp [hc] at hkind

/-! ### Spaces and numbers -/

def Stops (p : Char → Bool) (x : List Char) : Prop := ∀ c rest, x = c :: rest → p c = false

lemma stops_cons (h : p c = false) : Stops p (c :: x) := by
  intro c' rest heq
  cases heq
  exact h

lemma dropWhile_eq_of_stops (h : Stops p x) : x.dropWhile p = x := by
  cases x with
  | nil => rfl
  | cons c x => exact dropWhile_cons_of_neg (Bool.eq_false_iff.mp (h c x rfl))

lemma eq_of_append_eq {w w'} (hw : ∀ c ∈ w, p c = true) (hw' : ∀ c ∈ w', p c = true)
    (hx : Stops p x) (hx' : Stops p x') (h : w ++ x = w' ++ x') : w = w' ∧ x = x' := by
  have hdrop := congrArg (dropWhile p) h
  rw [dropWhile_append_of_pos hw, dropWhile_append_of_pos hw', dropWhile_eq_of_stops hx,
    dropWhile_eq_of_stops hx'] at hdrop
  subst hdrop
  exact ⟨append_cancel_right h, rfl⟩

def Ws.append (w w' : Ws) : Ws :=
  ⟨w.1 ++ w'.1, fun c hc => (List.mem_append.mp hc).elim (w.2 c) (w'.2 c)⟩

lemma isWs_of_startKind (h : startKind c ≠ none) : isWs c = false := by
  cases hws : isWs c with
  | false => rfl
  | true =>
    have hnone : ∀ d ∈ [' ', '\n', '\r', '\t'], startKind d = none := by decide
    exact absurd (hnone c (of_decide_eq_true hws)) h

lemma stops_text (t : RawJson) (r : List Char) : Stops isWs (t.text ++ r) := by
  obtain ⟨c, rest, htext, hkind⟩ := exists_text_eq_cons t
  rw [htext]
  refine stops_cons (isWs_of_startKind ?_)
  rw [hkind]
  exact Option.some_ne_none _

lemma stops_number_ws (ws : Ws) (h : Stops isNumberChar x) : Stops isNumberChar (ws.1 ++ x) := by
  obtain ⟨w, hw⟩ := ws
  cases w with
  | nil => exact h
  | cons c w =>
    have hnum : ∀ d ∈ [' ', '\n', '\r', '\t'], isNumberChar d = false := by decide
    exact stops_cons (hnum c (of_decide_eq_true (hw c mem_cons_self)))

/-! ### Lists -/

section

variable {α β : Type} {l l' : List α} {close : Char} {before after : α → Ws} {body : α → List Char}
  {val : α → β}

def tailText (l : List α) (x : List Char) : List Char := (if l.isEmpty then [] else [',']) ++ x

lemma tailText_stops (hcom : p ',' = false) (hx : l = [] → Stops p x) : Stops p (tailText l x) := by
  cases l with
  | nil => exact hx rfl
  | cons a l => exact stops_cons hcom

lemma tailText_eq (hclose : close ≠ ',') {y y'} (hx : l = [] → x = close :: y)
    (hx' : l' = [] → x' = close :: y') (h : tailText l x = tailText l' x') : x = x' := by
  cases l with
  | nil =>
    cases l' with
    | nil => exact h
    | cons a' l' =>
      have heq : x = ',' :: x' := h
      rw [hx rfl] at heq
      exact absurd (cons.inj heq).1 hclose
  | cons a l =>
    cases l' with
    | nil =>
      have heq : ',' :: x = x' := h
      rw [hx' rfl] at heq
      exact absurd (cons.inj heq).1.symm hclose
    | cons a' l' => exact (cons.inj h).2

def elemsText (before after : α → Ws) (body : α → List Char) (x : List Char) : List α → List Char
  | [] => x
  | a :: l => (before a).1 ++
      (body a ++ ((after a).1 ++ tailText l (elemsText before after body x l)))

def Reads (body : α → List Char) (val : α → β) (a : α) : Prop := ∀ {a' : α} {r r' : List Char},
  Stops isNumberChar r → Stops isNumberChar r' → body a ++ r = body a' ++ r' →
  val a = val a' ∧ r = r'

lemma map_eq_of_elemsText_eq (hcom : close ≠ ',') (hws : isWs close = false)
    (hnum : isNumberChar close = false)
    (hstart : ∀ a r, Stops isWs (body a ++ r) ∧ ∀ r', body a ++ r ≠ close :: r') :
    ∀ {l l' : List α} {r r' : List Char} (w w' : Ws), (∀ a ∈ l, Reads body val a) →
      w.1 ++ elemsText before after body (close :: r) l = w'.1 ++ elemsText before after body
      (close :: r') l' →
        l.map val = l'.map val ∧ r = r'
  | [], [], r, r', w, w', _, h => by
    obtain ⟨-, hrest⟩ := eq_of_append_eq w.2 w'.2 (stops_cons hws) (stops_cons hws) h
    exact ⟨rfl, (cons.inj hrest).2⟩
  | [], a' :: l', r, r', w, w', _, h => by
    rw [elemsText, elemsText, ← append_assoc w'.1] at h
    obtain ⟨-, hrest⟩ := eq_of_append_eq w.2 (Ws.append w' (before a')).2 (stops_cons hws)
      (hstart a' _).1 h
    exact absurd hrest.symm ((hstart a' _).2 _)
  | a :: l, [], r, r', w, w', _, h => by
    rw [elemsText, elemsText, ← append_assoc w.1] at h
    obtain ⟨-, hrest⟩ := eq_of_append_eq (Ws.append w (before a)).2 w'.2 (hstart a _).1
      (stops_cons hws) h
    exact absurd hrest ((hstart a _).2 _)
  | a :: l, a' :: l', r, r', w, w', hreads, h => by
    rw [elemsText, elemsText, ← append_assoc w.1, ← append_assoc w'.1] at h
    obtain ⟨-, hbody⟩ := eq_of_append_eq (Ws.append w (before a)).2 (Ws.append w' (before a')).2
      (hstart a _).1 (hstart a' _).1 h
    have hend : ∀ {r l}, l = [] →
        elemsText before after body (close :: r) l = close :: r := by
      rintro r l rfl
      rfl
    have hstops : ∀ {p} r l, p ',' = false →
      p close = false →
        Stops p (tailText l (elemsText before after body (close :: r) l)) := by
      intro p r l hcom hclose
      refine tailText_stops hcom fun hl => ?_
      rw [hend hl]
      exact stops_cons hclose
    obtain ⟨hval, hafter⟩ := hreads a mem_cons_self
      (stops_number_ws _ (hstops r l (by decide) hnum))
      (stops_number_ws _ (hstops r' l' (by decide) hnum)) hbody
    obtain ⟨-, htail⟩ := eq_of_append_eq (after a).2 (after a').2 (hstops r l (by decide) hws)
      (hstops r' l' (by decide) hws) hafter
    obtain ⟨hvals, hrest⟩ := map_eq_of_elemsText_eq hcom hws hnum hstart ⟨[], by simp⟩ ⟨[], by simp⟩
      (fun a ha => hreads a (mem_cons_of_mem _ ha)) (tailText_eq hcom hend hend htail)
    exact ⟨congrArg₂ cons hval hvals, hrest⟩

end

lemma itemsText_append (x : List Char) : ∀ items : List (Ws × RawJson × Ws),
    itemsText items ++ x = elemsText (·.1) (·.2.2) (·.2.1.text) x items
  | [] => rfl
  | item :: rest => by simp only [itemsText, elemsText, tailText, append_assoc,
      itemsText_append x rest]

def memberText (member : (Ws × RawString × Ws) × Ws × RawJson × Ws) : List Char :=
  quoted member.1.2.1 ++ (member.1.2.2.1 ++ ':' :: (member.2.1.1 ++ member.2.2.1.text))

lemma membersText_append (x : List Char) :
    ∀ members : List ((Ws × RawString × Ws) × Ws × RawJson × Ws),
    membersText members ++ x = elemsText (·.1.1) (·.2.2.2) memberText x members
  | [] => rfl
  | member :: rest => by
    simp only [membersText, elemsText, memberText, tailText, append_assoc, cons_append,
      membersText_append x rest]

/-! ### Values -/

lemma value_eq_of_append_eq {t t' : RawJson} {r r' : List Char} (hr : Stops isNumberChar r)
    (hr' : Stops isNumberChar r')
    (h : t.text ++ r = t'.text ++ r') : t.value = t'.value ∧ r = r' := by
  induction t generalizing t' r r' with
  | null =>
    have hkind := kind_eq_of_text_eq h
    cases t' with
    | null => exact ⟨rfl, append_cancel_left h⟩
    | _ => cases hkind
  | bool b =>
    have hkind := kind_eq_of_text_eq h
    cases t' with
    | bool b' =>
      cases hkind
      exact ⟨rfl, append_cancel_left h⟩
    | _ => cases hkind
  | number n =>
    have hkind := kind_eq_of_text_eq h
    cases t' with
    | number n' =>
      obtain ⟨hn, hrest⟩ := eq_of_append_eq n.2.2 n'.2.2 hr hr' h
      exact ⟨congrArg (fun l => Json.float (String.ofList l)) hn, hrest⟩
    | _ => cases hkind
  | str s =>
    have hkind := kind_eq_of_text_eq h
    cases t' with
    | str s' =>
      obtain ⟨hs, hrest⟩ := decode_eq_of_quoted_eq h
      exact ⟨congrArg (fun l => Json.str (String.ofList l)) hs, hrest⟩
    | _ => cases hkind
  | arr ws items ih =>
    have hkind := kind_eq_of_text_eq h
    cases t' with
    | arr ws' items' =>
      simp only [RawJson.text, cons_append, append_assoc, nil_append, cons.injEq, true_and] at h
      rw [itemsText_append, itemsText_append] at h
      obtain ⟨hvals, hrest⟩ := map_eq_of_elemsText_eq (by decide) (by decide) (by decide)
        (fun item r => ⟨stops_text item.2.1 r, fun r' => text_append_ne_cons (by decide)⟩) ws ws'
        (fun item hitem item' _ _ => ih item hitem) h
      rw [← itemsValues_eq_map, ← itemsValues_eq_map] at hvals
      exact ⟨congrArg Json.arr hvals, hrest⟩
    | _ => cases hkind
  | obj ws members ih =>
    have hkind := kind_eq_of_text_eq h
    cases t' with
    | obj ws' members' =>
      simp only [RawJson.text, cons_append, append_assoc, nil_append, cons.injEq, true_and] at h
      rw [membersText_append, membersText_append] at h
      have hreads : ∀ member ∈ members, Reads memberText
          (fun member => (String.ofList (decode member.1.2.1), member.2.2.1.value)) member := by
        intro member hmem member' r r' hr hr' h
        simp only [memberText, append_assoc, cons_append] at h
        obtain ⟨hkey, hcol⟩ := decode_eq_of_quoted_eq h
        obtain ⟨-, hsp⟩ := eq_of_append_eq member.1.2.2.2 member'.1.2.2.2 (stops_cons (by decide))
          (stops_cons (by decide)) hcol
        obtain ⟨-, htext⟩ := eq_of_append_eq member.2.1.2 member'.2.1.2 (stops_text _ _)
          (stops_text _ _) (cons.inj hsp).2
        obtain ⟨hval, hrest⟩ := ih member hmem hr hr' htext
        exact ⟨Prod.ext (congrArg String.ofList hkey) hval, hrest⟩
      obtain ⟨hvals, hrest⟩ := map_eq_of_elemsText_eq (by decide) (by decide) (by decide)
        (fun member r => ⟨stops_cons (by decide), fun r' heq =>
          absurd (cons.inj heq).1 (by decide)⟩) ws ws' hreads h
      rw [← membersValues_eq_map, ← membersValues_eq_map] at hvals
      exact ⟨congrArg (fun l => Json.obj (keepLast l)) hvals, hrest⟩
    | _ => cases hkind

/-- **Equal texts have equal values.** -/
theorem value_eq_of_text_eq {t' : RawJson} (h : t.text = t'.text) : t.value = t'.value := by
  have hstops : Stops isNumberChar [] := nofun
  have happ : t.text ++ [] = t'.text ++ [] := by rw [h]
  exact (value_eq_of_append_eq hstops hstops happ).1

end Windmill.Lib.JsonUnique
