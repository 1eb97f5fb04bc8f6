import FreeSensePorts.Core.Text
import Mathlib.Tactic

/-!
# Element trees

The element trees of Python's `xml.etree`, as far as programs use them that look children up by tag
and change them in place.  An element without text has the empty one, as `findtext` has it.  `child
name f` is `f` on the child that `parent.find(name) or SubElement(parent, name)` returns.  A change that
keeps the tag (`KeepsTag name`) is not seen under another (`find_child_ne`, `findall_child_ne`).
-/

namespace FreeSense.Xml

open List

variable {p : Element → Bool}

inductive Element
  | mk (tag text : Text) (children : List Element)

variable {α : Type} {g : Element → Element} {back : List Element}

namespace Element

def tag : Element → Text
  | mk tag _ _ => tag

def text : Element → Text
  | mk _ text _ => text

def children : Element → List Element
  | mk _ _ children => children

def empty (tag : Text) : Element := mk tag [] []

def withChildren (f : List Element → List Element) (e : Element) : Element :=
  mk e.tag e.text (f e.children)

def withText (value : Text) (e : Element) : Element := mk e.tag value e.children

@[simp] lemma tag_withChildren (f : List Element → List Element) (e : Element) :
    (e.withChildren f).tag = e.tag := rfl

@[simp] lemma children_withChildren (f : List Element → List Element) (e : Element) :
    (e.withChildren f).children = f e.children := rfl

@[simp] lemma tag_withText (value : Text) (e : Element) : (e.withText value).tag = e.tag := rfl

@[simp] lemma text_withText (value : Text) (e : Element) : (e.withText value).text = value := rfl

@[simp] lemma children_withText (value : Text) (e : Element) :
    (e.withText value).children = e.children := rfl

@[simp] lemma tag_empty (t : Text) : (empty t).tag = t := rfl

@[simp] lemma children_empty (t : Text) : (empty t).children = [] := rfl

/-! ## Looking up -/

def hasTag (name : Text) (e : Element) : Bool := e.tag = name

def findall (name : Text) (e : Element) : List Element := e.children.filter (hasTag name)

def find (name : Text) (e : Element) : Option Element := e.children.find? (hasTag name)

def findtext (name : Text) (e : Element) : Option Text := (e.find name).map text

/-- `findtext("outer/inner")`. -/
def findtext₂ (outer inner : Text) (e : Element) : Option Text :=
  ((e.findall outer).flatMap (findall inner)).head?.map text

/-! ## Changing in place -/

/-- Changes the first element with a property, if there is one. -/
def onFirst (p : Element → Bool) (f : Element → Element) : List Element → List Element
  | [] => []
  | c :: l => if p c then f c :: l else c :: onFirst p f l

/-- Changes the first element with a tag, after making one if there is none. -/
def onChild (name : Text) (f : Element → Element) : List Element → List Element
  | [] => [f (empty name)]
  | c :: l => if hasTag name c then f c :: l else c :: onChild name f l

def child (name : Text) (f : Element → Element) : Element → Element := withChildren (onChild name f)

def setText (name value : Text) : Element → Element := child name (withText value)

/-- `SubElement(parent, name)`, changed by `f`. -/
def sub (name : Text) (f : Element → Element) : Element → Element :=
  withChildren (· ++ [f (empty name)])

/-- Removes the element that `find` returns. -/
def removeFirst (name : Text) : Element → Element := withChildren (·.eraseP (hasTag name))

def removeAll (p : Element → Bool) : Element → Element := withChildren (·.filter fun c => !p c)

/-- A change of elements with a tag leaves them the tag. -/
def KeepsTag (name : Text) (f : Element → Element) : Prop := ∀ e, e.tag = name → (f e).tag = name

lemma keepsTag_withText (name value : Text) : KeepsTag name (withText value) := fun _ h => h

lemma keepsTag_child (name inner : Text) (f : Element → Element) : KeepsTag name (child inner f) :=
  fun _ h => h

lemma tag_foldl {g : Element → α → Element} (hg : ∀ e x, (g e x).tag = e.tag) :
    ∀ (l : List α) (e : Element), (l.foldl g e).tag = e.tag
  | [], _ => rfl
  | x :: l, e => (tag_foldl hg l (g e x)).trans (hg e x)

lemma withChildren_withChildren (f g : List Element → List Element) (e : Element) :
    (e.withChildren f).withChildren g = e.withChildren fun l => g (f l) := rfl

lemma foldl_sub (name : α → Text) (f : α → Element → Element) (l : List α) (e : Element) :
    l.foldl (fun e x => e.sub (name x) (f x)) e
      = e.withChildren (· ++ l.map fun x => f x (empty (name x))) := by
  induction l generalizing e with
  | nil => cases e; simp [withChildren, children, tag, text]
  | cons x l ih =>
    rw [foldl_cons, ih, sub, withChildren_withChildren]
    simp

/-! ## A change under one tag, seen under a tag -/

section Frames

variable {name other value : Text} {f : Element → Element}

lemma hasTag_of_keepsTag (hf : KeepsTag name f) {c : Element} (hc : hasTag name c = true) :
    hasTag other (f c) = hasTag other c := by
  have htag : c.tag = name := by simpa [hasTag] using hc
  simp [hasTag, hf c htag, htag]

lemma filter_onChild_ne (hf : KeepsTag name f) (hne : other ≠ name) : ∀ l : List Element,
    (onChild name f l).filter (hasTag other) = l.filter (hasTag other)
  | [] => by simp [onChild, hasTag, hf (empty name) rfl, hne.symm]
  | c :: l => by
    by_cases hc : hasTag name c = true
    · have hother : hasTag other c = false := by
        have htag : c.tag = name := by simpa [hasTag] using hc
        simp [hasTag, htag, hne.symm]
      simp [onChild, hasTag_of_keepsTag hf hc, hother, hc]
    · rw [onChild, if_neg hc, filter_cons, filter_cons, filter_onChild_ne hf hne l]

/-- **Another tag** does not see the change. -/
theorem findall_child_ne (hf : KeepsTag name f) (hne : other ≠ name) (e : Element) :
    (e.child name f).findall other = e.findall other :=
  filter_onChild_ne hf hne e.children

lemma find_eq_head (name : Text) (e : Element) : e.find name = (e.findall name).head? := by
  simp [find, findall]

theorem find_child_ne (hf : KeepsTag name f) (hne : other ≠ name) (e : Element) :
    (e.child name f).find other = e.find other := by
  rw [find_eq_head, find_eq_head, findall_child_ne hf hne]

lemma filter_onChild_eq (hf : KeepsTag name f) : ∀ l : List Element,
    (onChild name f l).filter (hasTag name)
      = f ((l.filter (hasTag name)).headD (empty name)) :: (l.filter (hasTag name)).tail
  | [] => by simp [onChild, hasTag, hf (empty name) rfl]
  | c :: l => by
    by_cases hc : hasTag name c = true
    · simp [onChild, hc, hasTag_of_keepsTag hf hc]
    · rw [onChild, if_neg hc, filter_cons_of_neg hc, filter_cons_of_neg hc]
      exact filter_onChild_eq hf l

/-- **The same tag** sees it in its first element. -/
theorem findall_child (hf : KeepsTag name f) (e : Element) :
    (e.child name f).findall name
      = f ((e.findall name).headD (empty name)) :: (e.findall name).tail :=
  filter_onChild_eq hf e.children

theorem find_child (hf : KeepsTag name f) (e : Element) :
    (e.child name f).find name = some (f ((e.find name).getD (empty name))) := by
  rw [find_eq_head, findall_child hf, find_eq_head]
  cases e.findall name <;> rfl

lemma findall_setText_ne (hne : other ≠ name) (e : Element) :
    (e.setText name value).findall other = e.findall other :=
  findall_child_ne (keepsTag_withText _ value) hne e

lemma findtext_setText_ne (hne : other ≠ name) (e : Element) :
    (e.setText name value).findtext other = e.findtext other := by
  rw [findtext, setText, find_child_ne (keepsTag_withText _ value) hne, findtext]

lemma findall_sub_ne (hf : KeepsTag name f) (hne : other ≠ name) (e : Element) :
    (e.sub name f).findall other = e.findall other := by
  simp [sub, findall, hasTag, hf (empty name) rfl, hne.symm]

lemma findall_removeFirst_ne (hne : other ≠ name) (e : Element) :
    (e.removeFirst name).findall other = e.findall other := by
  rw [findall, removeFirst, children_withChildren, findall]
  induction e.children with
  | nil => rfl
  | cons c l ih =>
    by_cases hc : hasTag name c = true
    · have hother : ¬hasTag other c = true := by
        simp only [hasTag, decide_eq_true_eq] at hc ⊢
        exact fun h => hne (h.symm.trans hc)
      rw [eraseP_cons_of_pos hc, filter_cons_of_neg hother]
    · rw [eraseP_cons_of_neg hc, filter_cons, filter_cons, ih]

lemma findall_removeFirst (e : Element) :
    (e.removeFirst name).findall name = (e.findall name).tail := by
  rw [findall, removeFirst, children_withChildren, findall]
  induction e.children with
  | nil => rfl
  | cons c l ih =>
    by_cases hc : hasTag name c = true
    · rw [eraseP_cons_of_pos hc, filter_cons_of_pos hc, tail_cons]
    · rw [eraseP_cons_of_neg hc, filter_cons_of_neg hc, filter_cons_of_neg hc, ih]

lemma findall_removeAll (e : Element) : (e.removeAll (hasTag name)).findall name = [] := by
  rw [findall, removeAll, children_withChildren]
  simp

lemma findall_removeAll_ne (hne : other ≠ name) (e : Element) :
    (e.removeAll (hasTag name)).findall other = e.findall other := by
  rw [findall, removeAll, children_withChildren, filter_filter]
  refine filter_congr fun c _ => ?_
  by_cases hc : c.tag = other
  · simp [hasTag, hc, hne]
  · simp [hasTag, hc]

/-- A text that was set is found, whatever elements of the outer tag there are. -/
theorem findtext₂_child_setText (outer inner : Text) (e : Element) (hg : KeepsTag outer g)
    (hinner : ∀ c, (g c).findtext inner = some value) :
    (e.child outer g).findtext₂ outer inner = some value := by
  rw [findtext₂, findall_child hg, flatMap_cons]
  have h := hinner ((e.findall outer).headD (empty outer))
  rw [findtext, find_eq_head] at h
  cases hl : (g ((e.findall outer).headD (empty outer))).findall inner with
  | nil =>
    rw [hl] at h
    exact absurd h (by simp)
  | cons c l =>
    rw [hl] at h
    exact h

lemma findtext_setText (e : Element) : (e.setText name value).findtext name = some value := by
  rw [findtext, setText, find_child (keepsTag_withText _ value)]
  rfl

end Frames

/-! ## The first element with a property -/

lemma find_onFirst {f : Element → Element} (hp : ∀ c, p c = true → p (f c)) :
    ∀ l : List Element, (onFirst p f l).find? p = (l.find? p).map f
  | [] => rfl
  | c :: l => by
    by_cases hc : p c = true
    · simp [onFirst, hc, hp c hc]
    · simp [onFirst, hc, find_onFirst hp l]

lemma filter_onFirst_ne {name other : Text} (hne : other ≠ name) {f : Element → Element}
    (hf : KeepsTag name f) : ∀ l : List Element,
    (onFirst (hasTag name) f l).filter (hasTag other) = l.filter (hasTag other)
  | [] => rfl
  | c :: l => by
    by_cases hc : hasTag name c = true
    · rw [onFirst, if_pos hc, filter_cons, filter_cons, hasTag_of_keepsTag hf hc]
      have hother : ¬hasTag other c = true := by
        simp only [hasTag, decide_eq_true_eq] at hc ⊢
        exact fun h => hne (h.symm.trans hc)
      rw [if_neg hother, if_neg hother]
    · rw [onFirst, if_neg hc, filter_cons, filter_cons, filter_onFirst_ne hne hf l]

lemma onFirst_append {f : Element → Element} (h : ∀ c ∈ back, p c = false) :
    ∀ front : List Element,
    onFirst p f (front ++ back) = onFirst p f front ++ back
  | [] => by
    induction back with
    | nil => rfl
    | cons c back ih =>
      have ih' := ih fun d hd => h d (mem_cons_of_mem _ hd)
      simp only [nil_append] at ih' ⊢
      simp [onFirst, h c mem_cons_self, ih']
  | c :: front => by
    by_cases hc : p c = true
    · simp [onFirst, hc]
    · simp [onFirst, hc, onFirst_append h front]

lemma onFirst_congr {f : Element → Element} : ∀ {l : List Element},
    (∀ c, l.find? p = some c → f c = g c) → onFirst p f l = onFirst p g l
  | [], _ => rfl
  | c :: l, h => by
    by_cases hc : p c = true
    · simp [onFirst, hc, h c (by simp [hc])]
    · rw [onFirst, if_neg hc, onFirst, if_neg hc]
      rw [onFirst_congr fun d hd => h d (by simp [hc, hd])]

lemma onFirst_id (p : Element → Bool) : ∀ l : List Element, onFirst p id l = l
  | [] => rfl
  | c :: l => by
    by_cases hc : p c = true
    · simp [onFirst, hc]
    · simp [onFirst, hc, onFirst_id p l]

/-! ## Changes that change nothing -/

section Fixed

variable {name value : Text} {f : Element → Element} {e c : Element}

lemma withChildren_eq_self {g : List Element → List Element} (h : g e.children = e.children) :
    e.withChildren g = e := by
  cases e
  simp_all [withChildren, children, tag, text]

lemma onChild_eq_self : ∀ {l : List Element}, l.find? (hasTag name) = some c → f c = c →
    onChild name f l = l
  | [], h, _ => by simp at h
  | d :: l, h, hf => by
    by_cases hd : hasTag name d = true
    · simp only [find?_cons, hd, Option.some.injEq] at h
      subst h
      simp [onChild, hd, hf]
    · simp only [find?_cons, hd] at h
      simp [onChild, hd, onChild_eq_self h hf]

/-- **A change under a tag** that leaves its first element alone. -/
theorem child_eq_self (h : e.find name = some c) (hf : f c = c) : e.child name f = e :=
  withChildren_eq_self (onChild_eq_self h hf)

lemma onChild_congr : ∀ {l : List Element},
    l.find? (hasTag name) = some c → f c = g c → onChild name f l = onChild name g l
  | [], h, _ => by simp at h
  | d :: l, h, hfg => by
    by_cases hd : hasTag name d = true
    · simp only [find?_cons, hd, Option.some.injEq] at h
      subst h
      simp [onChild, hd, hfg]
    · simp only [find?_cons, hd] at h
      simp [onChild, hd, onChild_congr h hfg]

lemma child_congr (h : e.find name = some c) (hfg : f c = g c) : e.child name f = e.child name g :=
  congrArg (Element.mk _ _) (onChild_congr h hfg)

lemma withText_eq_self (h : e.text = value) : e.withText value = e := by
  cases e
  simp_all [withText, children, tag, text]

theorem setText_eq_self (h : e.findtext name = some value) : e.setText name value = e := by
  obtain ⟨c, hc, htext⟩ := Option.map_eq_some_iff.mp h
  exact child_eq_self hc (withText_eq_self htext)

lemma removeFirst_eq_self (h : e.findall name = []) : e.removeFirst name = e := by
  refine withChildren_eq_self (eraseP_of_forall_not fun c hc hp => ?_)
  exact filter_eq_nil_iff.mp h c hc hp

lemma filter_append_eq_self {front : List Element} (hfront : ∀ c ∈ front, p c = false)
    (hback : ∀ c ∈ back, p c = true) :
    (front ++ back).filter (fun c => !p c) ++ back = front ++ back := by
  rw [filter_append, filter_eq_self.mpr (by simpa using hfront),
    filter_eq_nil_iff.mpr (by simpa using hback), append_nil]

end Fixed

/-! ## Several tags -/

/-- One change after the other, each under its tag. -/
def sections (fs : List (Text × (Element → Element))) (e : Element) : Element :=
  fs.foldl (fun e p => e.child p.1 p.2) e

section Sections

variable {fs : List (Text × (Element → Element))} {name : Text}

@[simp] lemma tag_sections (fs : List (Text × (Element → Element))) (e : Element) :
    (e.sections fs).tag = e.tag := by
  rw [sections, tag_foldl]
  exact fun _ _ => rfl

lemma findall_sections_ne (hkeep : ∀ p ∈ fs, KeepsTag p.1 p.2) (hname : name ∉ fs.map Prod.fst)
    (e : Element) : (e.sections fs).findall name = e.findall name := by
  induction fs generalizing e with
  | nil => rfl
  | cons p fs ih =>
    rw [map_cons, mem_cons, not_or] at hname
    exact (ih (fun q hq => hkeep q (mem_cons_of_mem _ hq)) hname.2 _).trans
      (findall_child_ne (hkeep p mem_cons_self) hname.1 e)

lemma find_sections (hkeep : ∀ p ∈ fs, KeepsTag p.1 p.2) (hnodup : (fs.map Prod.fst).Nodup)
    {p : Text × (Element → Element)} (hp : p ∈ fs) (e : Element) :
    ∃ c, (e.sections fs).find p.1 = some (p.2 c) := by
  induction fs generalizing e with
  | nil => simp at hp
  | cons q fs ih =>
    have hkeep' := fun r hr => hkeep r (mem_cons_of_mem _ hr)
    rw [map_cons, nodup_cons] at hnodup
    rw [sections, foldl_cons]
    rcases mem_cons.mp hp with rfl | hp
    · refine ⟨(e.find p.1).getD (empty p.1), ?_⟩
      rw [find_eq_head, ← sections, findall_sections_ne hkeep' hnodup.1, ← find_eq_head]
      exact find_child (hkeep _ mem_cons_self) e
    · exact ih hkeep' hnodup.2 hp _

lemma sections_eq_self {e : Element} (h : ∀ p ∈ fs, ∃ c, e.find p.1 = some c ∧ p.2 c = c) :
    e.sections fs = e := by
  induction fs with
  | nil => rfl
  | cons p fs ih =>
    obtain ⟨c, hc, hfix⟩ := h p mem_cons_self
    rw [sections, foldl_cons, child_eq_self hc hfix]
    exact ih fun q hq => h q (mem_cons_of_mem _ hq)

end Sections

def setTexts (texts : List (Text × Text)) : Element → Element :=
  sections (texts.map fun p => (p.1, withText p.2))

section Texts

variable {texts : List (Text × Text)} {name value : Text} {e : Element}

lemma keepsTag_texts :
    ∀ p ∈ texts.map fun p => (p.1, withText p.2), KeepsTag (p : Text × (Element → Element)).1 p.2 := by
  intro p hp
  obtain ⟨q, -, rfl⟩ := mem_map.mp hp
  exact keepsTag_withText _ _

lemma tags_texts : (texts.map fun p => (p.1, withText p.2)).map Prod.fst = texts.map Prod.fst := by
  simp

@[simp] lemma tag_setTexts : (e.setTexts texts).tag = e.tag := tag_sections _ e

lemma findall_setTexts_ne (h : name ∉ texts.map Prod.fst) :
    (e.setTexts texts).findall name = e.findall name :=
  findall_sections_ne keepsTag_texts (by rwa [tags_texts]) e

lemma findtext_eq_of_findall {e' : Element} (h : e'.findall name = e.findall name) :
    e'.findtext name = e.findtext name := by
  rw [findtext, find_eq_head, h, findtext, find_eq_head]

lemma findtext_setTexts (hnodup : (texts.map Prod.fst).Nodup) (h : (name, value) ∈ texts) :
    (e.setTexts texts).findtext name = some value := by
  obtain ⟨c, hc⟩ := find_sections keepsTag_texts (by rwa [tags_texts])
    (mem_map_of_mem (f := fun p : Text × Text => (p.1, withText p.2)) h) e
  rw [findtext, setTexts, hc]
  rfl

lemma setTexts_eq_self (h : ∀ p ∈ texts, e.findtext p.1 = some p.2) : e.setTexts texts = e := by
  refine sections_eq_self fun p hp => ?_
  obtain ⟨q, hq, rfl⟩ := mem_map.mp hp
  obtain ⟨c, hc, htext⟩ := Option.map_eq_some_iff.mp (h q hq)
  exact ⟨c, hc, withText_eq_self htext⟩

end Texts

end Element

end FreeSense.Xml
