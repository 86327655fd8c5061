import Mathlib.Data.List.Nodup
import Mathlib.Logic.Function.Basic

/-!
# Tail queues

A list threaded through its elements. Every element has the next one and the
place of the link that leads to it, and the head has the first element and the
place of the last link, so that an element is unlinked without a search. Every
access to an element that is not in memory fails.
-/
namespace TailQueue

/-- Where a link lies: in the head, or in an element. -/
inductive Place (α : Type*) where
  | head
  | next (a : α)
  deriving DecidableEq, Repr

/-- An element in memory, with its links and whatever else is in it. -/
structure Node (α β : Type*) where
  next : Option α
  prev : Place α
  data : β
  deriving DecidableEq, Repr

/-- The head, and the elements in memory by their addresses. -/
structure Queue (α β : Type*) where
  first : Option α
  last : Place α
  node : α → Option (Node α β)

variable {α β : Type*}

namespace Queue

/-- The link at a place. -/
def load (q : Queue α β) : Place α → Option (Option α)
  | .head => some q.first
  | .next a => (q.node a).map Node.next

def prev (q : Queue α β) (a : α) : Option (Place α) := (q.node a).map Node.prev

def data (q : Queue α β) (a : α) : Option β := (q.node a).map Node.data

variable [DecidableEq α]

def update (q : Queue α β) (a : α) (f : Node α β → Node α β) : Option (Queue α β) :=
  (q.node a).map fun n => { q with node := Function.update q.node a (some (f n)) }

def store (q : Queue α β) (p : Place α) (link : Option α) : Option (Queue α β) :=
  match p with
  | .head => some { q with first := link }
  | .next a => q.update a fun n => { n with next := link }

def setPrev (q : Queue α β) (a : α) (p : Place α) : Option (Queue α β) :=
  q.update a fun n => { n with prev := p }

def setData (q : Queue α β) (a : α) (d : β) : Option (Queue α β) :=
  q.update a fun n => { n with data := d }

def init (q : Queue α β) : Queue α β := { q with first := none, last := .head }

def insertTail (q : Queue α β) (elm : α) : Option (Queue α β) := do
  let q ← q.store (.next elm) none
  let q ← q.setPrev elm q.last
  let q ← q.store q.last (some elm)
  return { q with last := .next elm }

def remove (q : Queue α β) (elm : α) : Option (Queue α β) := do
  let n ← q.node elm
  let q ← match n.next with
    | some a => q.setPrev a n.prev
    | none => some { q with last := n.prev }
  let n ← q.node elm
  q.store n.prev n.next

/-- A new element, whose links hold whatever its memory held. -/
def allocate (q : Queue α β) (a : α) (n : Node α β) : Queue α β :=
  { q with node := Function.update q.node a (some n) }

def release (q : Queue α β) (a : α) : Option (Queue α β) :=
  (q.node a).map fun _ => { q with node := Function.update q.node a none }

/-- One field of every element, when one element changes. -/
theorem map_update {γ : Type*} (f : α → Option (Node α β)) (a : α) (v : Option (Node α β))
    (g : Node α β → γ) : (fun b => (Function.update f a v b).map g) =
      Function.update (fun b => (f b).map g) a (v.map g) := by
  funext b
  by_cases hb : b = a
  · subst hb
    simp
  · simp [hb]

theorem update_spec {q : Queue α β} {a : α} {n : Node α β} (h : q.node a = some n)
    (f : Node α β → Node α β) : ∃ q', q.update a f = some q' ∧ q'.last = q.last ∧ q'.first = q.first ∧
      q'.node = Function.update q.node a (some (f n)) :=
  ⟨{ q with node := Function.update q.node a (some (f n)) }, by rw [update, h]; rfl, rfl, rfl, rfl⟩

/-- A field that keeps its value in the changed element keeps it everywhere. -/
theorem map_update_same {γ : Type*} {q : Queue α β} {a : α} {n n' : Node α β} (h : q.node a = some n)
    (g : Node α β → γ) (hg : g n' = g n) :
    (fun b => (Function.update q.node a (some n') b).map g) = fun b => (q.node b).map g := by
  rw [map_update, Option.map_some, hg]
  exact Function.update_eq_self_iff.mpr (by rw [h]; rfl)

/-- A store through a place in memory changes that link alone. -/
theorem store_spec {q : Queue α β} {p : Place α} {old : Option α} (h : q.load p = some old)
    (link : Option α) : ∃ q', q.store p link = some q' ∧ q'.last = q.last ∧
      q'.load = Function.update q.load p (some link) ∧ q'.prev = q.prev ∧ q'.data = q.data := by
  cases p with
  | head =>
    refine ⟨{ q with first := link }, rfl, rfl, funext fun x => ?_, rfl, rfl⟩
    cases x <;> simp [load]
  | next a =>
    obtain ⟨n, hn, -⟩ := Option.map_eq_some_iff.mp h
    obtain ⟨q', h', hlast, hfirst, hnode⟩ := update_spec hn fun n => { n with next := link }
    refine ⟨q', h', hlast, funext fun x => ?_, ?_, ?_⟩
    · cases x with
      | head => simp [load, hfirst]
      | next b =>
        rw [load, hnode]
        by_cases hab : b = a
        · subst hab
          simp
        · simp [hab, load]
    · unfold prev
      rw [hnode]
      exact map_update_same hn Node.prev rfl
    · unfold data
      rw [hnode]
      exact map_update_same hn Node.data rfl

theorem load_same {q q' : Queue α β} {a : α} {n n' : Node α β} (h : q.node a = some n)
    (hfirst : q'.first = q.first) (hnode : q'.node = Function.update q.node a (some n'))
    (hn : n'.next = n.next) : q'.load = q.load := by
  funext x
  cases x with
  | head => simp [load, hfirst]
  | next b =>
    have hb := congrFun (map_update_same h Node.next hn) b
    rw [load, hnode]
    exact hb

theorem setPrev_spec {q : Queue α β} {a : α} {n : Node α β} (h : q.node a = some n) (p : Place α) :
    ∃ q', q.setPrev a p = some q' ∧ q'.last = q.last ∧ q'.load = q.load ∧
      q'.prev = Function.update q.prev a (some p) ∧ q'.data = q.data := by
  obtain ⟨q', h', hlast, hfirst, hnode⟩ := update_spec h fun n => { n with prev := p }
  refine ⟨q', h', hlast, load_same h hfirst hnode rfl, ?_, ?_⟩
  · unfold prev
    rw [hnode]
    exact map_update q.node a (some { n with prev := p }) Node.prev
  · unfold data
    rw [hnode]
    exact map_update_same h Node.data rfl

theorem setData_spec {q : Queue α β} {a : α} {n : Node α β} (h : q.node a = some n) (d : β) :
    ∃ q', q.setData a d = some q' ∧ q'.last = q.last ∧ q'.load = q.load ∧ q'.prev = q.prev ∧
      q'.data = Function.update q.data a (some d) := by
  obtain ⟨q', h', hlast, hfirst, hnode⟩ := update_spec h fun n => { n with data := d }
  refine ⟨q', h', hlast, load_same h hfirst hnode rfl, ?_, ?_⟩
  · unfold prev
    rw [hnode]
    exact map_update_same h Node.prev rfl
  · unfold data
    rw [hnode]
    exact map_update q.node a (some { n with data := d }) Node.data

end Queue

/-! ### The list a queue stands for -/

/-- From one place to another over the elements of `l`, which are linked both ways. -/
def Links (q : Queue α β) : Place α → List α → Place α → Prop
  | p, [], r => p = r
  | p, a :: l, r => q.load p = some (some a) ∧ q.prev a = some p ∧ Links q (.next a) l r

structure Holds (q : Queue α β) (l : List α) : Prop where
  nodup : l.Nodup
  links : Links q .head l q.last
  ended : q.load q.last = some none

variable {q q' : Queue α β} {p r : Place α} {l pre post : List α} {a : α}

theorem links_append {l' : List α} :
    Links q p (l ++ l') r ↔ ∃ m, Links q p l m ∧ Links q m l' r := by
  induction l generalizing p with
  | nil => simp [Links]
  | cons a l ih =>
    simp only [List.cons_append, Links, ih]
    constructor
    · rintro ⟨hload, hprev, m, hl, hl'⟩
      exact ⟨m, ⟨hload, hprev, hl⟩, hl'⟩
    · rintro ⟨m, ⟨hload, hprev, hl⟩, hl'⟩
      exact ⟨hload, hprev, m, hl, hl'⟩

/-- The links end at the last element, or where they begin. -/
theorem Links.stop (h : Links q p l r) : r = p ∨ ∃ a ∈ l, r = .next a := by
  induction l generalizing p with
  | nil => exact Or.inl h.symm
  | cons a l ih =>
    rcases ih h.2.2 with rfl | ⟨b, hb, rfl⟩
    · exact Or.inr ⟨a, List.mem_cons_self, rfl⟩
    · exact Or.inr ⟨b, List.mem_cons_of_mem a hb, rfl⟩

theorem Links.live (h : Links q p l r) (ha : a ∈ l) : ∃ n, q.node a = some n := by
  induction l generalizing p with
  | nil => cases ha
  | cons b l ih =>
    rcases List.mem_cons.mp ha with rfl | ha
    · obtain ⟨n, hn, -⟩ := Option.map_eq_some_iff.mp h.2.1
      exact ⟨n, hn⟩
    · exact ih h.2.2 ha

/-- Links stay where memory stays the same, up to the last place. -/
theorem Links.frame (h : Links q p l r) (hl : l.Nodup) (hp : ∀ a ∈ l, p ≠ .next a)
    (hload : ∀ x, x ≠ r → (x = p ∨ ∃ a ∈ l, x = .next a) → q'.load x = q.load x)
    (hprev : ∀ a ∈ l, q'.prev a = q.prev a) : Links q' p l r := by
  induction l generalizing p with
  | nil => exact h
  | cons a l ih =>
    obtain ⟨hfirst, hback, hrest⟩ := h
    obtain ⟨ha, hl⟩ := List.nodup_cons.mp hl
    have hpr : p ≠ r := by
      rcases hrest.stop with rfl | ⟨b, hb, rfl⟩
      · exact hp a List.mem_cons_self
      · exact hp b (List.mem_cons_of_mem a hb)
    refine ⟨(hload p hpr (Or.inl rfl)).trans hfirst, (hprev a List.mem_cons_self).trans hback, ?_⟩
    refine ih hrest hl (fun b hb => by rintro ⟨⟩; exact ha hb) (fun x hx hplace => hload x hx ?_)
      fun b hb => hprev b (List.mem_cons_of_mem a hb)
    rcases hplace with rfl | ⟨b, hb, rfl⟩
    · exact Or.inr ⟨a, List.mem_cons_self, rfl⟩
    · exact Or.inr ⟨b, List.mem_cons_of_mem a hb, rfl⟩

/-- A queue stands for one list only. -/
theorem Links.unique {l' : List α} (h : Links q p l q.last) (h' : Links q p l' q.last)
    (hend : q.load q.last = some none) : l = l' := by
  induction l generalizing p l' with
  | nil =>
    cases h
    cases l' with
    | nil => rfl
    | cons b l' => simp [h'.1] at hend
  | cons a l ih =>
    cases l' with
    | nil =>
      cases h'
      simp [h.1] at hend
    | cons b l' =>
      obtain rfl : a = b := by simpa [h.1] using h'.1
      exact congrArg (a :: ·) (ih h.2.2 h'.2.2)

namespace Holds

theorem unique {l' : List α} (h : Holds q l) (h' : Holds q l') : l = l' :=
  h.links.unique h'.links h.ended

theorem live (h : Holds q l) (ha : a ∈ l) : ∃ n, q.node a = some n := h.links.live ha

/-- A walk begins at the first element. -/
theorem load_head (h : Holds q l) : q.load .head = some l.head? := by
  obtain ⟨-, hlinks, hend⟩ := h
  cases l with
  | nil => rwa [show Place.head = q.last from hlinks]
  | cons a l => exact hlinks.1

/-- From every element a walk goes on to the one behind it. -/
theorem load_next (h : Holds q (pre ++ a :: post)) : q.load (.next a) = some post.head? := by
  obtain ⟨-, hlinks, hend⟩ := h
  obtain ⟨m, -, -, -, hpost⟩ := links_append.mp hlinks
  cases post with
  | nil => rwa [show Place.next a = q.last from hpost]
  | cons b post => exact hpost.1

/-- Changes elsewhere in memory leave the list alone. -/
theorem congr (h : Holds q l) (hlast : q'.last = q.last)
    (hload : ∀ x, (x = .head ∨ ∃ a ∈ l, x = .next a) → q'.load x = q.load x)
    (hprev : ∀ a ∈ l, q'.prev a = q.prev a) : Holds q' l := by
  obtain ⟨hnodup, hlinks, hend⟩ := h
  refine ⟨hnodup, ?_, ?_⟩
  · rw [hlast]
    exact hlinks.frame hnodup (fun a _ => nofun) (fun x _ hx => hload x hx) hprev
  · rw [hlast, hload _ hlinks.stop]
    exact hend

theorem init (q : Queue α β) : Holds q.init [] := ⟨List.nodup_nil, rfl, rfl⟩

variable [DecidableEq α]

theorem insertTail {n : Node α β} (h : Holds q l) (ha : a ∉ l) (hn : q.node a = some n) :
    ∃ q', q.insertTail a = some q' ∧ Holds q' (l ++ [a]) ∧ q'.data = q.data := by
  obtain ⟨hnodup, hlinks, hend⟩ := h
  have hlast : q.last ≠ .next a := by
    rcases hlinks.stop with heq | ⟨b, hb, heq⟩ <;> rw [heq] <;> rintro ⟨⟩
    exact ha hb
  have hnext : q.load (.next a) = some n.next := by simp [Queue.load, hn]
  obtain ⟨q₁, h₁, hl₁, hload₁, hprev₁, hdata₁⟩ := Queue.store_spec hnext none
  have hnext₁ : q₁.load (.next a) = some none := by rw [hload₁, Function.update_self]
  obtain ⟨n₁, hn₁, -⟩ := Option.map_eq_some_iff.mp hnext₁
  obtain ⟨q₂, h₂, hl₂, hload₂, hprev₂, hdata₂⟩ := Queue.setPrev_spec hn₁ q₁.last
  have hend₂ : q₂.load q₂.last = some none := by
    rw [hl₂, hl₁, hload₂, hload₁, Function.update_of_ne hlast]
    exact hend
  obtain ⟨q₃, h₃, hl₃, hload₃, hprev₃, hdata₃⟩ := Queue.store_spec hend₂ (some a)
  rw [hl₂, hl₁, hload₂, hload₁] at hload₃
  rw [hprev₂, hprev₁, hl₁] at hprev₃
  refine ⟨{ q₃ with last := .next a }, ?_, ⟨?_, ?_, ?_⟩, hdata₃.trans (hdata₂.trans hdata₁)⟩
  · simp only [Queue.insertTail, h₁, h₂, h₃, Option.bind_eq_bind, Option.bind_some]
    rfl
  · exact List.nodup_append.mpr ⟨hnodup, List.nodup_singleton a, by rintro b hb c hc rfl; simp_all⟩
  · refine links_append.mpr ⟨q.last, hlinks.frame hnodup (fun b _ => nofun) (fun x hx hplace => ?_)
      fun b hb => ?_, ?_, ?_, rfl⟩
    · change q₃.load x = _
      rw [hload₃, Function.update_of_ne hx, Function.update_of_ne]
      rintro rfl
      rcases hplace with heq | ⟨b, hb, heq⟩ <;> cases heq
      exact ha hb
    · change q₃.prev b = _
      rw [hprev₃, Function.update_of_ne (ne_of_mem_of_not_mem hb ha)]
    · change q₃.load _ = _
      rw [hload₃, Function.update_self]
    · change q₃.prev _ = _
      rw [hprev₃, Function.update_self]
  · change q₃.load (.next a) = _
    rw [hload₃, Function.update_of_ne (Ne.symm hlast), Function.update_self]

theorem remove (h : Holds q (pre ++ a :: post)) :
    ∃ q', q.remove a = some q' ∧ Holds q' (pre ++ post) ∧ q'.data = q.data := by
  have hnext := h.load_next
  obtain ⟨hnodup, hlinks, hend⟩ := h
  obtain ⟨hpre, hrest, hdisj⟩ := List.nodup_append.mp hnodup
  obtain ⟨hapost, hpost⟩ := List.nodup_cons.mp hrest
  have hnodup' : (pre ++ post).Nodup :=
    hnodup.sublist ((List.sublist_cons_self a post).append_left pre)
  obtain ⟨m, hlpre, hm, hback, hlpost⟩ := links_append.mp hlinks
  obtain ⟨n, hn, hprev⟩ := Option.map_eq_some_iff.mp hback
  have hnn : n.next = post.head? := by simpa [Queue.load, hn] using hnext
  -- The place before the element belongs to the part before it.
  have hmplace : ∀ b ∈ a :: post, m ≠ .next b := by
    rintro b hb rfl
    rcases hlpre.stop with heq | ⟨c, hc, heq⟩ <;> cases heq
    exact hdisj b hc b hb rfl
  cases post with
  | nil =>
    have hload : ({ q with last := n.prev } : Queue α β).load n.prev = some (some a) := by
      rw [hprev]
      exact hm
    obtain ⟨q', h', hl', hload', hprev', hdata'⟩ := Queue.store_spec hload n.next
    refine ⟨q', ?_, ⟨by simpa using hpre, ?_, ?_⟩, hdata'⟩
    · simp only [Queue.remove, hn, hnn, List.head?_nil, Option.bind_eq_bind, Option.bind_some] at h' ⊢
      exact h'
    · rw [hl', List.append_nil]
      change Links q' .head pre n.prev
      rw [hprev]
      refine hlpre.frame hpre (fun b _ => nofun) (fun x hx _ => ?_) fun b _ => by rw [hprev']; rfl
      rw [hload', hprev, Function.update_of_ne hx]
      cases x <;> rfl
    · rw [hl', hload', hnn]
      exact Function.update_self _ _ _
  | cons b post =>
    obtain ⟨hab, hbback, hlpost⟩ := hlpost
    obtain ⟨nb, hnb, -⟩ := Option.map_eq_some_iff.mp hbback
    obtain ⟨q₁, h₁, hl₁, hload₁, hprev₁, hdata₁⟩ := Queue.setPrev_spec hnb n.prev
    have hne : a ≠ b := by
      rintro rfl
      exact hapost List.mem_cons_self
    obtain ⟨n₁, hn₁, hnext₁⟩ := Option.map_eq_some_iff.mp ((congrFun hload₁ (.next a)).trans hab)
    have hprev₁a : n₁.prev = m := by
      have := congrFun hprev₁ a
      rw [Function.update_of_ne hne, hback] at this
      simpa [Queue.prev, hn₁] using this
    have hm₁ : q₁.load n₁.prev = some (some a) := by
      rw [hload₁, hprev₁a]
      exact hm
    obtain ⟨q₂, h₂, hl₂, hload₂, hprev₂, hdata₂⟩ := Queue.store_spec hm₁ n₁.next
    rw [hload₁, hprev₁a, hnext₁] at hload₂
    rw [hprev₁, hprev] at hprev₂
    have hkept : ∀ x, x ≠ m → q₂.load x = q.load x := by
      intro x hx
      rw [hload₂, Function.update_of_ne hx]
    refine ⟨q₂, ?_, ⟨hnodup', ?_, ?_⟩, hdata₂.trans hdata₁⟩
    · simp only [Queue.remove, hn, hnn, List.head?_cons, Option.bind_eq_bind, Option.bind_some, h₁, hn₁]
      exact h₂
    · rw [hl₂, hl₁]
      refine links_append.mpr ⟨m, hlpre.frame hpre (fun c _ => nofun) (fun x hx _ => hkept x hx)
        fun c hc => ?_, ?_, ?_, ?_⟩
      · rw [hprev₂, Function.update_of_ne]
        rintro rfl
        exact hdisj c hc c (by simp) rfl
      · rw [hload₂, Function.update_self]
      · rw [hprev₂, Function.update_self]
      · obtain ⟨hbpost, hpost'⟩ := List.nodup_cons.mp hpost
        refine hlpost.frame hpost' (fun c hc => by rintro ⟨⟩; exact hbpost hc)
          (fun x _ hplace => hkept x ?_) fun c hc => ?_
        · rintro rfl
          rcases hplace with heq | ⟨c, hc, heq⟩
          · exact hmplace b (by simp) heq
          · exact hmplace c (by simp [hc]) heq
        · rw [hprev₂, Function.update_of_ne]
          rintro rfl
          exact hbpost hc
    · rw [hl₂, hl₁, hkept]
      · exact hend
      · rcases hlpost.stop with heq | ⟨c, hc, heq⟩ <;> rw [heq]
        · exact (hmplace b (by simp)).symm
        · exact (hmplace c (by simp [hc])).symm

theorem setData {n : Node α β} (h : Holds q l) (hn : q.node a = some n) (d : β) :
    ∃ q', q.setData a d = some q' ∧ Holds q' l ∧ q'.data = Function.update q.data a (some d) := by
  obtain ⟨q', h', hlast, hload, hprev, hdata⟩ := Queue.setData_spec hn d
  exact ⟨q', h', h.congr hlast (fun x _ => by rw [hload]) (fun b _ => by rw [hprev]), hdata⟩

/-- Memory outside the list may change as it likes. -/
theorem outside {v : Option (Node α β)} (h : Holds q l) (ha : a ∉ l) :
    Holds { q with node := Function.update q.node a v } l := by
  refine h.congr rfl (fun x hx => ?_) fun b hb => ?_
  · rcases hx with rfl | ⟨b, hb, rfl⟩
    · rfl
    · simp only [Queue.load]
      rw [Function.update_of_ne (ne_of_mem_of_not_mem hb ha)]
  · simp only [Queue.prev]
    rw [Function.update_of_ne (ne_of_mem_of_not_mem hb ha)]

theorem allocate (h : Holds q l) (hfresh : q.node a = none) (n : Node α β) :
    Holds (q.allocate a n) l ∧
      (q.allocate a n).data = Function.update q.data a (some n.data) := by
  refine ⟨h.outside fun ha => ?_, Queue.map_update q.node a (some n) Node.data⟩
  obtain ⟨n, hn⟩ := h.live ha
  simp [hfresh] at hn

theorem release {n : Node α β} (h : Holds q l) (ha : a ∉ l) (hn : q.node a = some n) :
    ∃ q', q.release a = some q' ∧ Holds q' l ∧ q'.data = Function.update q.data a none :=
  ⟨{ q with node := Function.update q.node a none }, by rw [Queue.release, hn]; rfl, h.outside ha,
    Queue.map_update q.node a none Node.data⟩

end Holds

end TailQueue
