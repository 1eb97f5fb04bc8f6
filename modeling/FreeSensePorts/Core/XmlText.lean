import FreeSensePorts.Core.Xml

/-!
# Element trees as text

How `ElementTree.write` writes an element tree, and how a parser reads it.  The writer escapes `&`, `<`
and `>` in texts.  The parser refuses a character that XML 1.0 does not allow, and turns every line end
into a newline first.  So a tree comes back as it was exactly if its texts have no such character and
no carriage return (`parse_document_iff`).  The parser is one for what is written: no attributes,
comments or character references.
-/

namespace FreeSense.Xml

open List Element

variable {s : Text}

/-! ## Characters -/

def isLegal (c : Char) : Bool :=
  c = '\t' ∨ c = '\n' ∨ c = '\r' ∨ 0x20 ≤ c.toNat ∧ c.toNat ≠ 0xFFFE ∧ c.toNat ≠ 0xFFFF

/-- The end of a line is a newline, however it is written. -/
def normalizeEnds : Text → Text
  | '\r' :: '\n' :: s => '\n' :: normalizeEnds s
  | '\r' :: s => '\n' :: normalizeEnds s
  | c :: s => c :: normalizeEnds s
  | [] => []

/-- A character that is legal and no line end of its own. -/
def isPlain (c : Char) : Bool := isLegal c && c ≠ '\r'

def isReadable (s : Text) : Bool := s.all isPlain

/-- What a tag is made of, as far as a reader of tags has to know. -/
def isNameChar (c : Char) : Bool :=
  isPlain c && c ≠ ' ' && c ≠ '\t' && c ≠ '\n' && c ≠ '<' && c ≠ '>' && c ≠ '/' && c ≠ '&'

def isName (s : Text) : Bool := !s.isEmpty && s.all isNameChar

lemma normalizeEnds_eq_self (h : '\r' ∉ s) : normalizeEnds s = s := by
  fun_induction normalizeEnds s with
  | case1 | case2 => simp at h
  | case3 c s _ _ ih => rw [ih (fun hmem => h (mem_cons_of_mem c hmem))]
  | case4 => rfl

lemma return_notMem_normalizeEnds (s : Text) : '\r' ∉ normalizeEnds s := by
  fun_induction normalizeEnds s with
  | case1 s ih => simpa using ih
  | case2 s _ ih => simpa using ih
  | case3 c s _ hne ih =>
    rw [mem_cons, not_or]
    exact ⟨fun heq => hne heq.symm, ih⟩
  | case4 => exact not_mem_nil

lemma isReadable_iff : isReadable s = true ↔ s.all isLegal = true ∧ '\r' ∉ s := by
  simp only [isReadable, isPlain, all_eq_true, Bool.and_eq_true, decide_eq_true_iff, forall_and]
  exact and_congr_right fun _ => ⟨fun h hmem => h _ hmem rfl, fun h c hc heq => h (heq ▸ hc)⟩

@[simp] lemma isReadable_nil : isReadable [] = true := rfl

@[simp] lemma isReadable_append (s t : Text) : isReadable (s ++ t) = (isReadable s && isReadable t) :=
  all_append

@[simp] lemma isReadable_cons (c : Char) (s : Text) :
    isReadable (c :: s) = (isPlain c && isReadable s) := rfl

lemma isReadable_of_isName (h : isName s = true) : isReadable s = true := by
  rw [isName, Bool.and_eq_true, all_eq_true] at h
  refine all_eq_true.mpr fun c hc => ?_
  have hname := h.2 c hc
  simp only [isNameChar, Bool.and_eq_true] at hname
  exact hname.1.1.1.1.1.1.1

lemma isPlain_of_le {c : Char} (hlo : 0x20 ≤ c.toNat) (hhi : c.toNat < 0xFFFE) : isPlain c = true := by
  have hreturn : c ≠ '\r' := by
    rintro rfl
    exact absurd hlo (by decide)
  have hlegal : isLegal c = true := decide_eq_true (.inr (.inr (.inr ⟨hlo, by omega, by omega⟩)))
  rw [isPlain, hlegal, decide_eq_true hreturn, Bool.and_self]

/-! ## Everywhere in a tree -/

mutual

/-- The element and all below it, as `iter` goes through them. -/
def iter : Element → List Element
  | .mk tag text children => .mk tag text children :: iterAll children

def iterAll : List Element → List Element
  | [] => []
  | e :: es => iter e ++ iterAll es

end

def Every (P : Text → Text → Prop) (e : Element) : Prop := ∀ n ∈ iter e, P n.tag n.text

/-- **Induction** over a tree, with the hypothesis for each child. -/
@[elab_as_elim]
lemma element_induction {motive : Element → Prop}
    (mk : ∀ tag text children, (∀ c ∈ children, motive c) → motive (.mk tag text children)) :
    ∀ e, motive e
  | .mk tag text children => mk tag text children fun c _ => element_induction mk c

lemma iterAll_eq : ∀ es, iterAll es = es.flatMap iter
  | [] => rfl
  | e :: es => by rw [iterAll, iterAll_eq es, flatMap_cons]

lemma every_mk {P : Text → Text → Prop} {tag text : Text} {children : List Element} :
    Every P (.mk tag text children) ↔ P tag text ∧ ∀ c ∈ children, Every P c := by
  simp only [Every, iter, iterAll_eq, forall_mem_cons, forall_mem_flatMap]
  exact Iff.rfl

section Every

variable {P Q : Text → Text → Prop} {e c : Element} {name value : Text} {f : Element → Element}

lemma every_iff : Every P e ↔ P e.tag e.text ∧ ∀ c ∈ e.children, Every P c := by
  obtain ⟨tag, text, children⟩ := e
  exact every_mk

lemma Every.imp (h : ∀ tag text, P tag text → Q tag text) (he : Every P e) : Every Q e :=
  fun n hn => h n.tag n.text (he n hn)

lemma Every.and (hp : Every P e) (hq : Every Q e) : Every (fun tag text => P tag text ∧ Q tag text) e :=
  fun n hn => ⟨hp n hn, hq n hn⟩

lemma Every.of_mem (he : Every P e) (hc : c ∈ e.children) : Every P c := (every_iff.mp he).2 c hc

lemma every_leaf (h : P name value) : Every P (.mk name value []) := every_mk.mpr ⟨h, by simp⟩

lemma every_empty (h : P name []) : Every P (empty name) := every_leaf h

lemma Every.withText (he : Every P e) (h : P e.tag value) : Every P (e.withText value) :=
  every_mk.mpr ⟨h, (every_iff.mp he).2⟩

lemma Every.withChildren {g : List Element → List Element} (he : Every P e)
    (h : ∀ c ∈ g e.children, Every P c) : Every P (e.withChildren g) :=
  every_mk.mpr ⟨(every_iff.mp he).1, h⟩

lemma every_onChild (hnew : P name []) (hf : ∀ c, c.tag = name → Every P c → Every P (f c)) :
    ∀ {l : List Element}, (∀ c ∈ l, Every P c) → ∀ c ∈ onChild name f l, Every P c
  | [], _ => forall_mem_singleton.mpr (hf _ rfl (every_empty hnew))
  | c :: l, hl => by
    rw [forall_mem_cons] at hl
    rw [onChild]
    split_ifs with hc
    · exact forall_mem_cons.mpr ⟨hf c (of_decide_eq_true hc) hl.1, hl.2⟩
    · exact forall_mem_cons.mpr ⟨hl.1, every_onChild hnew hf hl.2⟩

lemma Every.child (he : Every P e) (hnew : P name [])
    (hf : ∀ c, c.tag = name → Every P c → Every P (f c)) : Every P (e.child name f) :=
  he.withChildren (every_onChild hnew hf (every_iff.mp he).2)

lemma Every.setText (he : Every P e) (hnew : P name []) (h : P name value) :
    Every P (e.setText name value) :=
  he.child hnew fun _ hc hevery => hevery.withText (hc.symm ▸ h)

lemma Every.setTexts {texts : List (Text × Text)} (he : Every P e)
    (h : ∀ p ∈ texts, P p.1 [] ∧ P p.1 p.2) : Every P (e.setTexts texts) := by
  induction texts generalizing e with
  | nil => exact he
  | cons p texts ih =>
    rw [forall_mem_cons] at h
    exact ih (he.setText h.1.1 h.1.2) h.2

lemma Every.removeFirst (he : Every P e) (name : Text) : Every P (e.removeFirst name) :=
  he.withChildren fun _ hc => he.of_mem (mem_of_mem_eraseP hc)

lemma every_onFirst {p : Element → Bool} (hf : ∀ c, Every P c → Every P (f c)) :
    ∀ {l : List Element}, (∀ c ∈ l, Every P c) → ∀ c ∈ onFirst p f l, Every P c
  | [], hl => hl
  | c :: l, hl => by
    rw [forall_mem_cons] at hl
    rw [onFirst]
    split_ifs
    · exact forall_mem_cons.mpr ⟨hf c hl.1, hl.2⟩
    · exact forall_mem_cons.mpr ⟨hl.1, every_onFirst hf hl.2⟩

lemma Every.find (he : Every P e) (h : e.find name = some c) : Every P c ∧ c.tag = name := by
  have htag : hasTag name c = true := find?_some h
  exact ⟨he.of_mem (mem_of_find?_eq_some h), of_decide_eq_true htag⟩

lemma Every.findtext (he : Every P e) (h : e.findtext name = some value) : P name value := by
  obtain ⟨c, hc, rfl⟩ := Option.map_eq_some_iff.mp h
  obtain ⟨hevery, rfl⟩ := he.find hc
  exact (every_iff.mp hevery).1

lemma Every.findtext₂ {outer inner : Text} (he : Every P e)
    (h : e.findtext₂ outer inner = some value) : P inner value := by
  obtain ⟨c, hc, rfl⟩ := Option.map_eq_some_iff.mp h
  obtain ⟨o, ho, hin⟩ := mem_flatMap.mp (mem_of_mem_head? hc)
  obtain ⟨hchild, htag⟩ := mem_filter.mp hin
  have hevery := (he.of_mem (mem_filter.mp ho).1).of_mem hchild
  exact of_decide_eq_true htag ▸ (every_iff.mp hevery).1

end Every

def texts (e : Element) : List Text := (iter e).map text

lemma every_texts (e : Element) : Every (fun _ text => text ∈ texts e) e :=
  fun _ hn => mem_map_of_mem hn

lemma every_iff_texts {X : Text → Prop} {e : Element} :
    Every (fun _ text => X text) e ↔ ∀ t ∈ texts e, X t :=
  forall_mem_map.symm

/-! ## Writing -/

def escapeChar (c : Char) : Text :=
  if c = '&' then "&amp;".toList
  else if c = '<' then "&lt;".toList
  else if c = '>' then "&gt;".toList
  else [c]

def escape (s : Text) : Text := s.flatMap escapeChar

def closing (tag : Text) : Text := '<' :: '/' :: (tag ++ ['>'])

mutual

def write : Element → Text
  | .mk tag text children =>
    if text.isEmpty && children.isEmpty then '<' :: (tag ++ " />".toList)
    else '<' :: (tag ++ '>' :: (escape text ++ (writeAll children ++ closing tag)))

def writeAll : List Element → Text
  | [] => []
  | e :: es => write e ++ writeAll es

end

def declaration : Text := "<?xml version='1.0' encoding='utf-8'?>\n".toList

def document (e : Element) : Text := declaration ++ write e

/-! ## Reading -/

/-- The text up to the next tag. -/
def content : Text → Option (Text × Text)
  | '&' :: 'a' :: 'm' :: 'p' :: ';' :: s => (content s).map fun r => ('&' :: r.1, r.2)
  | '&' :: 'l' :: 't' :: ';' :: s => (content s).map fun r => ('<' :: r.1, r.2)
  | '&' :: 'g' :: 't' :: ';' :: s => (content s).map fun r => ('>' :: r.1, r.2)
  | '&' :: _ => none
  | '<' :: s => some ([], '<' :: s)
  | c :: s => (content s).map fun r => (c :: r.1, r.2)
  | [] => none

def close (tag s : Text) : Option Text :=
  if s.take (closing tag).length = closing tag then some (s.drop (closing tag).length) else none

mutual

def element : ℕ → Text → Option (Element × Text)
  | fuel + 1, '<' :: s =>
    let tag := s.takeWhile isNameChar
    if tag.isEmpty then none
    else match s.drop tag.length with
      | ' ' :: '/' :: '>' :: rest => some (.mk tag [] [], rest)
      | '>' :: rest => do
        let (text, rest) ← content rest
        let (children, rest) ← elements fuel rest
        return (.mk tag text children, ← close tag rest)
      | _ => none
  | _, _ => none

def elements : ℕ → Text → Option (List Element × Text)
  | 0, _ => none
  | _ + 1, '<' :: '/' :: s => some ([], '<' :: '/' :: s)
  | fuel + 1, s => do
    let (e, rest) ← element fuel s
    let (es, rest) ← elements fuel rest
    return (e :: es, rest)

end

/-- `ElementTree.parse`, `none` for a `ParseError`. -/
def parse (s : Text) : Option Element :=
  if s.all isLegal && (normalizeEnds s).take declaration.length = declaration then
    match element (s.length + 1) ((normalizeEnds s).drop declaration.length) with
    | some (e, []) => some e
    | _ => none
  else none

/-! ## What is written is read back -/

@[simp] lemma escape_cons (c : Char) (s : Text) : escape (c :: s) = escapeChar c ++ escape s :=
  flatMap_cons

lemma writeAll_eq : ∀ es, writeAll es = es.flatMap write
  | [] => rfl
  | e :: es => by rw [writeAll, writeAll_eq es, flatMap_cons]

lemma content_escape (s rest : Text) :
    content (escape s ++ '<' :: rest) = some (s, '<' :: rest) := by
  induction s with
  | nil => rw [escape, flatMap_nil, nil_append, content]
  | cons c s ih =>
    -- the three characters that are escaped, and the others
    by_cases hamp : c = '&'
    · subst hamp
      simp [escapeChar, content, ih]
    by_cases hlt : c = '<'
    · subst hlt
      simp [escapeChar, content, ih]
    by_cases hgt : c = '>'
    · subst hgt
      simp [escapeChar, content, ih]
    simp [escapeChar, hamp, hlt, hgt, content, ih]

lemma takeWhile_name {tag : Text} (htag : isName tag = true) {c : Char} (hc : isNameChar c = false)
    (rest : Text) : (tag ++ c :: rest).takeWhile isNameChar = tag := by
  rw [isName, Bool.and_eq_true, all_eq_true] at htag
  rw [takeWhile_append_of_pos htag.2, takeWhile_cons, hc]
  simp

lemma close_closing (tag rest : Text) : close tag (closing tag ++ rest) = some rest := by
  rw [close, take_left, drop_left, if_pos rfl]

/-- An element is written as a `<` that no slash follows. -/
lemma exists_write {e : Element} (he : Every (fun tag _ => isName tag = true) e) :
    ∃ c s, c ≠ '/' ∧ write e = '<' :: c :: s := by
  obtain ⟨tag, text, children⟩ := e
  have htag := (every_mk.mp he).1
  cases tag with
  | nil => simp [isName] at htag
  | cons c tag =>
    refine ⟨c, ?_⟩
    have hslash : c ≠ '/' := by
      rintro rfl
      simp [isName, isNameChar] at htag
    rw [write]
    split_ifs
    · exact ⟨_, hslash, rfl⟩
    · exact ⟨_, hslash, rfl⟩

/-- Whatever elements stand before it, what starts with a `<` still does. -/
lemma exists_behind {es : List Element} (hes : ∀ e ∈ es, Every (fun tag _ => isName tag = true) e)
    (rest : Text) (hrest : ∃ s, rest = '<' :: s) : ∃ s, writeAll es ++ rest = '<' :: s := by
  cases es with
  | nil => exact hrest
  | cons e es =>
    obtain ⟨c, s, -, hwrite⟩ := exists_write (hes e mem_cons_self)
    rw [writeAll, hwrite]
    exact ⟨_, rfl⟩

lemma elements_write (rest : Text) {es : List Element}
    (htags : ∀ e ∈ es, Every (fun tag _ => isName tag = true) e)
    (hread : ∀ e ∈ es, ∀ fuel, (write e).length ≤ fuel → ∀ rest,
      element fuel (write e ++ rest) = some (e, rest)) :
    ∀ fuel, (writeAll es).length + 1 ≤ fuel →
      elements fuel (writeAll es ++ '<' :: '/' :: rest) = some (es, '<' :: '/' :: rest) := by
  induction es with
  | nil =>
    rintro (_ | fuel) hfuel
    · simp at hfuel
    · rw [writeAll, nil_append, elements]
  | cons e es ih =>
    rw [forall_mem_cons] at htags hread
    rintro (_ | fuel) hfuel
    · simp at hfuel
    obtain ⟨c, s, hslash, hwrite⟩ := exists_write htags.1
    have hlength : (write e).length = s.length + 2 := by simp [hwrite]
    rw [writeAll, length_append] at hfuel
    have hfirst := hread.1 fuel (by omega) (writeAll es ++ '<' :: '/' :: rest)
    have hothers := ih htags.2 hread.2 fuel (by omega)
    rw [hwrite] at hfirst
    rw [writeAll, hwrite, append_assoc, cons_append, cons_append, elements]
    · rw [← cons_append, ← cons_append, hfirst]
      simp [hothers]
    · rintro t ⟨⟩
      exact hslash rfl

/-- **Reading** what was written, with anything behind it. -/
theorem element_write (e : Element) (he : Every (fun tag _ => isName tag = true) e) :
    ∀ fuel, (write e).length ≤ fuel → ∀ rest, element fuel (write e ++ rest) = some (e, rest) := by
  induction e using element_induction with
  | mk tag text children ih =>
    obtain ⟨htag, hchildren⟩ := every_mk.mp he
    have hne : tag.isEmpty = false := by
      rw [isName, Bool.and_eq_true] at htag
      simpa using htag.1
    rintro fuel hfuel rest
    rw [write] at hfuel ⊢
    obtain _ | fuel := fuel
    · split_ifs at hfuel <;> simp at hfuel
    split_ifs at hfuel ⊢ with hempty
    · -- `<tag />`
      obtain ⟨htext, hnone⟩ : text = [] ∧ children = [] := by simpa using hempty
      have hname := takeWhile_name htag (c := ' ') (by decide) ('/' :: '>' :: rest)
      simp [element, hname, hne, htext, hnone]
    · obtain ⟨behind, hbehind⟩ := exists_behind hchildren (closing tag ++ rest) ⟨_, rfl⟩
      have hname := takeWhile_name htag (c := '>') (by decide) (escape text ++ '<' :: behind)
      have hcontent := content_escape text behind
      have hbelow := elements_write (tag ++ '>' :: rest) hchildren
        (fun c hc => ih c hc (hchildren c hc)) fuel (by simp [closing] at hfuel; omega)
      have hclosing : closing tag ++ rest = '<' :: '/' :: (tag ++ '>' :: rest) := by simp [closing]
      rw [← hclosing, hbehind] at hbelow
      simp [element, hbehind, hname, hne, hcontent, hbelow, close_closing]

/-! ## What is read has only newlines -/

lemma noReturn_of_content {r : Text × Text} (h : content s = some r) (hs : '\r' ∉ s) :
    '\r' ∉ r.1 ∧ '\r' ∉ r.2 := by
  fun_induction content s generalizing r with
  | case1 s ih | case2 s ih | case3 s ih =>
    obtain ⟨r, hr, rfl⟩ := Option.map_eq_some_iff.mp h
    simpa using ih hr (by simpa using hs)
  | case4 | case7 => simp at h
  | case5 s =>
    obtain rfl := Option.some.inj h
    exact ⟨not_mem_nil, hs⟩
  | case6 c s _ _ _ _ _ ih =>
    obtain ⟨r, hr, rfl⟩ := Option.map_eq_some_iff.mp h
    rw [mem_cons, not_or] at hs
    simpa [hs.1] using ih hr hs.2

lemma notMem_drop {c : Char} (h : c ∉ s) (n : ℕ) : c ∉ s.drop n :=
  fun hmem => h (mem_of_mem_drop hmem)

lemma noReturn_of_close {tag s rest : Text} (h : close tag s = some rest) (hs : '\r' ∉ s) :
    '\r' ∉ rest := by
  rw [close] at h
  split_ifs at h
  obtain rfl := Option.some.inj h
  exact notMem_drop hs _

/-- A text without carriage returns has none in the elements read of it, nor behind them. -/
lemma noReturn_of_read (fuel : ℕ) :
    (∀ s r, element fuel s = some r → '\r' ∉ s →
      Every (fun _ text => '\r' ∉ text) r.1 ∧ '\r' ∉ r.2)
    ∧ (∀ s r, elements fuel s = some r → '\r' ∉ s →
      (∀ e ∈ r.1, Every (fun _ text => '\r' ∉ text) e) ∧ '\r' ∉ r.2) := by
  induction fuel with
  | zero => exact ⟨fun s r h => by simp [element] at h, fun s r h => by simp [elements] at h⟩
  | succ fuel ih =>
    constructor
    · intro s r h hs
      unfold element at h
      split at h
      next fuel' s heq =>
        obtain rfl : fuel = fuel' := Nat.succ.inj heq
        have hdrop := notMem_drop (not_mem_of_not_mem_cons hs) (s.takeWhile isNameChar).length
        simp only [] at h
        split_ifs at h
        split at h
        next rest heq =>
          obtain rfl := Option.some.inj h
          rw [heq] at hdrop
          exact ⟨every_mk.mpr ⟨not_mem_nil, by simp⟩, by simpa using hdrop⟩
        next rest heq =>
          rw [heq] at hdrop
          simp only [Option.bind_eq_bind, Option.bind_eq_some_iff, Option.pure_def] at h
          obtain ⟨body, hbody, below, hbelow, last, hlast, hr⟩ := h
          obtain rfl := Option.some.inj hr
          have htext := noReturn_of_content hbody (not_mem_of_not_mem_cons hdrop)
          have hchildren := ih.2 _ _ hbelow htext.2
          exact ⟨every_mk.mpr ⟨htext.1, hchildren.1⟩, noReturn_of_close hlast hchildren.2⟩
        next => cases h
      next => cases h
    · intro s r h hs
      unfold elements at h
      split at h
      next => cases h
      next =>
        obtain rfl := Option.some.inj h
        exact ⟨by simp, hs⟩
      next heq _ =>
        obtain rfl := Nat.succ.inj heq
        simp only [Option.bind_eq_bind, Option.bind_eq_some_iff, Option.pure_def] at h
        obtain ⟨first, hfirst, others, hothers, hr⟩ := h
        obtain rfl := Option.some.inj hr
        have hhead := ih.1 _ _ hfirst hs
        have htail := ih.2 _ _ hothers hhead.2
        exact ⟨forall_mem_cons.mpr ⟨hhead.1, htail.1⟩, htail.2⟩

/-! ## Documents -/

section Documents

variable {e : Element}

lemma isReadable_escape (h : isReadable s = true) : isReadable (escape s) = true := by
  induction s with
  | nil => rfl
  | cons c s ih =>
    rw [isReadable_cons, Bool.and_eq_true] at h
    rw [escape_cons, isReadable_append, ih h.2, escapeChar]
    split_ifs
    · decide
    · decide
    · decide
    · simp [isReadable, h.1]

lemma isReadable_write
    (he : Every (fun tag text => isName tag = true ∧ isReadable text = true) e) :
    isReadable (write e) = true := by
  induction e using element_induction with
  | mk tag text children ih =>
    obtain ⟨⟨hname, htext⟩, hchildren⟩ := every_mk.mp he
    have htag := isReadable_of_isName hname
    have hbelow : isReadable (writeAll children) = true := by
      rw [writeAll_eq, isReadable, all_flatMap, all_eq_true]
      exact fun c hc => ih c hc (hchildren c hc)
    have hmarks : isPlain '<' = true ∧ isPlain '>' = true ∧ isPlain '/' = true := by decide
    rw [write]
    split_ifs
    · rw [isReadable_cons, isReadable_append, htag]
      decide
    · simp [closing, htag, hbelow, isReadable_escape htext, hmarks]

lemma all_isLegal_of_escape (h : (escape s).all isLegal = true) : s.all isLegal = true := by
  induction s with
  | nil => rfl
  | cons c s ih =>
    rw [escape_cons, all_append, Bool.and_eq_true] at h
    rw [all_cons, ih h.2]
    have hc := h.1
    rw [escapeChar] at hc
    split_ifs at hc with hamp hlt hgt
    · exact hamp ▸ by decide
    · exact hlt ▸ by decide
    · exact hgt ▸ by decide
    · simpa using hc

lemma all_isLegal_of_write (h : (write e).all isLegal = true) :
    Every (fun _ text => text.all isLegal = true) e := by
  induction e using element_induction with
  | mk tag text children ih =>
    rw [write] at h
    split_ifs at h with hempty
    · obtain ⟨rfl, rfl⟩ : text = [] ∧ children = [] := by simpa using hempty
      exact every_mk.mpr ⟨rfl, by simp⟩
    · simp only [all_cons, all_append, Bool.and_eq_true] at h
      obtain ⟨-, -, -, htext, hbelow, -⟩ := h
      rw [writeAll_eq, all_flatMap, all_eq_true] at hbelow
      exact every_mk.mpr ⟨all_isLegal_of_escape htext, fun c hc => ih c hc (hbelow c hc)⟩

/-- **A tree comes back** as it was exactly if its texts are readable. -/
theorem parse_document_iff (htags : Every (fun tag _ => isName tag = true) e) :
    parse (document e) = some e ↔ Every (fun _ text => isReadable text = true) e := by
  constructor
  · intro h
    rw [parse] at h
    split_ifs at h with hlegal
    rw [Bool.and_eq_true, document, all_append, Bool.and_eq_true] at hlegal
    have hwrite := all_isLegal_of_write hlegal.1.2
    have hread : Every (fun _ text => '\r' ∉ text) e := by
      split at h
      next e' heq =>
        obtain rfl := Option.some.inj h
        exact ((noReturn_of_read _).1 _ _ heq (notMem_drop (return_notMem_normalizeEnds _) _)).1
      next => cases h
    exact (hwrite.and hread).imp fun _ _ => isReadable_iff.mpr
  · intro h
    have hdocument : isReadable (document e) = true := by
      rw [document, isReadable_append, isReadable_write (htags.and h)]
      decide
    obtain ⟨hlegal, hreturn⟩ := isReadable_iff.mp hdocument
    have hread := element_write e htags ((document e).length + 1)
      (by rw [document, length_append]; omega) []
    rw [append_nil] at hread
    rw [parse, normalizeEnds_eq_self hreturn, hlegal]
    have htake : (document e).take declaration.length = declaration := take_left
    have hdrop : (document e).drop declaration.length = write e := drop_left
    simp [htake, hdrop, hread]

end Documents

end FreeSense.Xml
