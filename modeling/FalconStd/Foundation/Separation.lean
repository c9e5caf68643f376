import Mathlib.Data.Set.Basic
import Mathlib.Logic.Relation
import FalconStd.Foundation.Heap

/-! Which cells of a heap an operation can change for whom.

Cells refer to cells. Some are frozen: they refer to nothing, nobody writes them, and
anybody may hold them. A set of handles owns its cells (`Owns`) when only frozen cells
connect it with the rest of the heap. An operation that stays on its side (`Acts`)
then changes nothing that can be observed from the other (`Apart.step`). -/
namespace Foundation

/-- What the cells of a heap refer to, and which of them nobody writes. -/
structure Layout (α : Type*) where
  refs : α → List Handle
  Frozen : α → Prop
  leaf : ∀ {x : α}, Frozen x → refs x = []

namespace Heap
variable {α : Type*}

section Graph
variable (refs : α → List Handle) {h h' : Heap α} {r x : Handle}

def Points (h : Heap α) (r r' : Handle) : Prop := r' ∈ refs (h.cell r)

def Reaches (h : Heap α) : Handle → Handle → Prop := Relation.ReflTransGen (h.Points refs)

/-- Everything that can be observed from a handle: the cells it leads to, with their
identities and their contents. -/
def graph (h : Heap α) (r : Handle) : Set (Handle × α) :=
  {p | h.Reaches refs r p.1 ∧ p.2 = h.cell p.1}

/-- Handles in use refer to handles in use. -/
def Sound (h : Heap α) : Prop := ∀ r < h.next, ∀ r' ∈ refs (h.cell r), r' < h.next

variable {refs}

theorem Reaches.of_same (hsame : ∀ x, h.Reaches refs r x → h'.cell x = h.cell x)
    (hr : h.Reaches refs r x) : h'.Reaches refs r x := by
  induction hr with
  | refl => exact .refl
  | @tail y z hy hstep ih =>
    refine ih.tail ?_
    rwa [Points, hsame y hy]

theorem Reaches.of_same_back (hsame : ∀ x, h.Reaches refs r x → h'.cell x = h.cell x)
    (hr : h'.Reaches refs r x) : h.Reaches refs r x := by
  induction hr with
  | refl => exact .refl
  | @tail y z _ hstep ih =>
    refine ih.tail ?_
    rwa [Points, hsame y ih] at hstep

/-- Nothing changes for a handle when the cells it leads to do not. -/
theorem graph_eq (hsame : ∀ x, h.Reaches refs r x → h'.cell x = h.cell x) :
    h'.graph refs r = h.graph refs r := by
  ext p
  constructor
  · intro hp
    have hreach := Reaches.of_same_back hsame hp.1
    exact ⟨hreach, hp.2.trans (hsame p.1 hreach)⟩
  · intro hp
    exact ⟨Reaches.of_same hsame hp.1, hp.2.trans (hsame p.1 hp.1).symm⟩

theorem Sound.reaches (hs : h.Sound refs) (hr : r < h.next) (hx : h.Reaches refs r x) :
    x < h.next := by
  induction hx with
  | refl => exact hr
  | @tail y z _ hstep ih => exact hs y ih z hstep

/-- A graph says what is in the cells it has. -/
theorem cell_of_graph (hgraph : h'.graph refs r = h.graph refs r) (hx : h.Reaches refs r x) :
    h'.cell x = h.cell x := by
  have hmem : (x, h.cell x) ∈ h'.graph refs r := by
    rw [hgraph]
    exact ⟨hx, rfl⟩
  exact hmem.2.symm

end Graph

/-! ### Sides -/

section Sides
variable (L : Layout α)

/-- `side` shares only frozen cells with the rest, and the cells to come are its own. -/
structure Owns (h : Heap α) (side : Set Handle) : Prop where
  sound : h.Sound L.refs
  apart : ∀ r < h.next, ∀ r' ∈ L.refs (h.cell r), (r ∈ side ↔ r' ∈ side) ∨ L.Frozen (h.cell r')
  fresh : ∀ r, h.next ≤ r → r ∈ side

/-- A change on one side: the cells of the other and the frozen ones stay as they are. -/
structure Acts (side : Set Handle) (h h' : Heap α) : Prop where
  next_le : h.next ≤ h'.next
  frame : ∀ r < h.next, r ∉ side ∨ L.Frozen (h.cell r) → h'.cell r = h.cell r
  owns : h'.Owns L side

/-- A handle that a cell of `side` may hold. -/
def Within (h : Heap α) (side : Set Handle) (r : Handle) : Prop :=
  r < h.next ∧ (r ∈ side ∨ L.Frozen (h.cell r))

/-- A handle of `side` itself. -/
def Has (h : Heap α) (side : Set Handle) (r : Handle) : Prop := r < h.next ∧ r ∈ side

variable {L} {h h' h'' : Heap α} {side : Set Handle} {r x : Handle}

theorem Has.within (hr : h.Has side r) : h.Within L side r := ⟨hr.1, .inl hr.2⟩

/-- What `side` may hold and may be written is its own. -/
theorem Within.has (hr : h.Within L side r) (hnot : ¬ L.Frozen (h.cell r)) : h.Has side r :=
  ⟨hr.1, hr.2.resolve_right hnot⟩

theorem Owns.within_ref (ho : h.Owns L side) (hr : h.Within L side r)
    (hx : x ∈ L.refs (h.cell r)) : h.Within L side x := by
  have hnot : ¬ L.Frozen (h.cell r) := by
    intro hf
    rw [L.leaf hf] at hx
    cases hx
  refine ⟨ho.sound r hr.1 x hx, ?_⟩
  exact (ho.apart r hr.1 x hx).imp_left fun hiff => hiff.mp (hr.has hnot).2

/-- A side reaches its own cells and frozen ones. -/
theorem Owns.reaches (ho : h.Owns L side) (hr : r < h.next) (hx : h.Reaches L.refs r x) :
    x < h.next ∧ ((r ∈ side ↔ x ∈ side) ∨ L.Frozen (h.cell x)) := by
  induction hx with
  | refl => exact ⟨hr, .inl Iff.rfl⟩
  | @tail y z _ hstep ih =>
    obtain ⟨hy, hside⟩ := ih
    refine ⟨ho.sound y hy z hstep, ?_⟩
    rcases hside with hside | hfrozen
    · exact (ho.apart y hy z hstep).imp_left hside.trans
    · rw [Points, L.leaf hfrozen] at hstep
      cases hstep

theorem Owns.reaches_within (ho : h.Owns L side) (hr : h.Has side r)
    (hx : h.Reaches L.refs r x) : h.Within L side x := by
  obtain ⟨hlt, hin⟩ := ho.reaches hr.1 hx
  exact ⟨hlt, hin.imp_left fun hiff => hiff.mp hr.2⟩

/-- The other side: the rest of the cells, and those to come. -/
def others (h : Heap α) (side : Set Handle) : Set Handle := {r | r < h.next → r ∉ side}

theorem mem_others (hr : r < h.next) : r ∈ h.others side ↔ r ∉ side :=
  ⟨fun hmem => hmem hr, fun hmem _ => hmem⟩

theorem Owns.others (ho : h.Owns L side) : h.Owns L (h.others side) := by
  constructor
  case sound => exact ho.sound
  case apart =>
    intro r hr r' hmem
    rw [mem_others hr, mem_others (ho.sound r hr r' hmem), not_iff_not]
    exact ho.apart r hr r' hmem
  case fresh => exact fun r hle hlt => absurd hlt (Nat.not_lt.mpr hle)

/-- The cells to come are a side of any heap. -/
theorem Sound.owns (hs : h.Sound L.refs) : h.Owns L {r | h.next ≤ r} := by
  constructor
  case sound => exact hs
  case apart =>
    intro r hr r' hmem
    exact .inl (iff_of_false (Nat.not_le.mpr hr) (Nat.not_le.mpr (hs r hr r' hmem)))
  case fresh => exact fun _ hle => hle

/-! ### Changes on one side -/

theorem Acts.refl (ho : h.Owns L side) : Acts L side h h := ⟨le_rfl, fun _ _ _ => rfl, ho⟩

theorem Acts.frozen (ha : Acts L side h h') (hr : r < h.next) (hf : L.Frozen (h.cell r)) :
    L.Frozen (h'.cell r) := by
  rw [ha.frame r hr (.inr hf)]
  exact hf

theorem Acts.trans (ha : Acts L side h h') (ha' : Acts L side h' h'') : Acts L side h h'' := by
  constructor
  case next_le => exact ha.next_le.trans ha'.next_le
  case frame =>
    intro r hr hkept
    rw [ha'.frame r (hr.trans_le ha.next_le) (hkept.imp_right (ha.frozen hr)), ha.frame r hr hkept]
  case owns => exact ha'.owns

theorem Acts.has (ha : Acts L side h h') (hr : h.Has side r) : h'.Has side r :=
  ⟨hr.1.trans_le ha.next_le, hr.2⟩

theorem Acts.within (ha : Acts L side h h') (hr : h.Within L side r) : h'.Within L side r :=
  ⟨hr.1.trans_le ha.next_le, hr.2.imp_right (ha.frozen hr.1)⟩

theorem acts_alloc (ho : h.Owns L side) {c : α} (hc : ∀ r ∈ L.refs c, h.Within L side r) :
    Acts L side h (h.alloc c).2 := by
  have hold : ∀ {r}, r < h.next → (h.alloc c).2.cell r = h.cell r := alloc_cell_old h c
  constructor
  case next_le => exact Nat.le_succ _
  case frame => exact fun r hr _ => hold hr
  case owns =>
    constructor
    case sound =>
      intro r hr r' hmem
      rcases Nat.lt_succ_iff_lt_or_eq.mp hr with hlt | rfl
      · rw [hold hlt] at hmem
        exact Nat.lt_succ_of_lt (ho.sound r hlt r' hmem)
      · rw [alloc_cell_new] at hmem
        exact Nat.lt_succ_of_lt (hc r' hmem).1
    case apart =>
      intro r hr r' hmem
      rcases Nat.lt_succ_iff_lt_or_eq.mp hr with hlt | rfl
      · rw [hold hlt] at hmem
        rw [hold (ho.sound r hlt r' hmem)]
        exact ho.apart r hlt r' hmem
      · rw [alloc_cell_new] at hmem
        rw [hold (hc r' hmem).1]
        exact (hc r' hmem).2.imp_left fun hside => iff_of_true (ho.fresh _ le_rfl) hside
    case fresh => exact fun r hle => ho.fresh r (Nat.le_of_succ_le hle)

theorem has_alloc (ho : h.Owns L side) (c : α) : (h.alloc c).2.Has side h.next :=
  ⟨Nat.lt_succ_self _, ho.fresh _ le_rfl⟩

theorem acts_write (ho : h.Owns L side) (hr : h.Within L side r) (hnot : ¬ L.Frozen (h.cell r))
    {c : α} (hc : ∀ r' ∈ L.refs c, h.Within L side r') : Acts L side h (h.write r c) := by
  have hside := (hr.has hnot).2
  -- a frozen cell is not the one written
  have hfrozen : ∀ {x}, L.Frozen (h.cell x) → L.Frozen ((h.write r c).cell x) := by
    intro x hx
    have hne : x ≠ r := by
      intro heq
      subst heq
      exact hnot hx
    rwa [write_cell_ne h c hne]
  constructor
  case next_le => exact le_rfl
  case frame =>
    intro x _ hkept
    refine write_cell_ne h c ?_
    intro heq
    subst heq
    exact hkept.elim (fun hout => hout hside) hnot
  case owns =>
    constructor
    case sound =>
      intro x hx r' hmem
      by_cases hxr : x = r
      · subst hxr
        rw [write_cell_same] at hmem
        exact (hc r' hmem).1
      · rw [write_cell_ne h c hxr] at hmem
        exact ho.sound x hx r' hmem
    case apart =>
      intro x hx r' hmem
      by_cases hxr : x = r
      · subst hxr
        rw [write_cell_same] at hmem
        exact (hc r' hmem).2.imp (iff_of_true hside) hfrozen
      · rw [write_cell_ne h c hxr] at hmem
        exact (ho.apart x hx r' hmem).imp_right hfrozen
    case fresh => exact ho.fresh

/-! ### Two sides -/

/-- Two handles that share frozen cells only, in a heap where they are in use. -/
structure Apart (L : Layout α) (h : Heap α) (a b : Handle) : Prop where
  left_lt : a < h.next
  right_lt : b < h.next
  sides : ∃ side, h.Owns L side ∧ a ∈ side ∧ b ∉ side

theorem Apart.symm {a b : Handle} (hab : Apart L h a b) : Apart L h b a := by
  obtain ⟨side, ho, ha, hb⟩ := hab.sides
  refine ⟨hab.right_lt, hab.left_lt, h.others side, ho.others, (mem_others hab.right_lt).mpr hb, ?_⟩
  rw [mem_others hab.left_lt]
  exact not_not_intro ha

/-- What both lead to is frozen. -/
theorem Apart.shared_frozen {a b : Handle} (hab : Apart L h a b) (ha : h.Reaches L.refs a x)
    (hb : h.Reaches L.refs b x) : L.Frozen (h.cell x) := by
  obtain ⟨side, ho, hina, hnotb⟩ := hab.sides
  rcases (ho.reaches hab.left_lt ha).2 with hxa | hf
  · rcases (ho.reaches hab.right_lt hb).2 with hxb | hf
    · exact absurd (hxb.mpr (hxa.mp hina)) hnotb
    · exact hf
  · exact hf

/-- Whatever side makes it, a new object keeps what was apart. -/
theorem Apart.made {a b : Handle} (hab : Apart L h a b)
    (hmade : ∀ side, h.Owns L side → Acts L side h h') : Apart L h' a b := by
  obtain ⟨side, ho, ha, hb⟩ := hab.sides
  have hacts := hmade side ho
  exact ⟨hab.left_lt.trans_le hacts.next_le, hab.right_lt.trans_le hacts.next_le, side, hacts.owns,
    ha, hb⟩

/-- Cells that refer to what they did, and stay frozen, keep what was apart. -/
theorem Apart.alike {a b : Handle} (hab : Apart L h a b) (hnext : h'.next = h.next)
    (hrefs : ∀ r, L.refs (h'.cell r) = L.refs (h.cell r))
    (hfrozen : ∀ r, L.Frozen (h.cell r) → L.Frozen (h'.cell r)) : Apart L h' a b := by
  obtain ⟨side, ho, ha, hb⟩ := hab.sides
  refine ⟨hnext ▸ hab.left_lt, hnext ▸ hab.right_lt, side, ?_, ha, hb⟩
  constructor
  case sound =>
    intro r hr r' hmem
    rw [hrefs] at hmem
    rw [hnext] at hr ⊢
    exact ho.sound r hr r' hmem
  case apart =>
    intro r hr r' hmem
    rw [hrefs] at hmem
    rw [hnext] at hr
    exact (ho.apart r hr r' hmem).imp_right (hfrozen r')
  case fresh =>
    intro r hr
    rw [hnext] at hr
    exact ho.fresh r hr

/-- Operations, by the handle they are called on: each acts on whatever side owns it. -/
def Local (L : Layout α) (op : Handle → Heap α → Heap α → Prop) : Prop :=
  ∀ ⦃root h h' side⦄, h.Owns L side → h.Has side root → op root h h' → Acts L side h h'

/-- Nobody's change is seen from a frozen cell. -/
theorem Acts.kept_frozen (ha : Acts L side h h') (hr : r < h.next) (hf : L.Frozen (h.cell r))
    (hx : h.Reaches L.refs r x) : h'.cell x = h.cell x := by
  rcases hx.cases_head with rfl | ⟨y, hstep, _⟩
  · exact ha.frame r hr (.inr hf)
  · rw [Points, L.leaf hf] at hstep
    cases hstep

theorem Acts.graph_eq (ho : h.Owns L side) (ha : Acts L side h h') (hr : r < h.next)
    (hout : r ∉ side) : h'.graph L.refs r = h.graph L.refs r := by
  refine Heap.graph_eq fun x hx => ?_
  obtain ⟨hlt, hin⟩ := ho.reaches hr hx
  exact ha.frame x hlt (hin.imp_left fun hiff => fun hmem => hout (hiff.mpr hmem))

variable {op : Handle → Heap α → Heap α → Prop} {a b root : Handle}

/-- What is called on one of two handles apart changes nothing for the other. -/
theorem Apart.graph_eq (hop : Local L op) (hab : Apart L h a b) (hstep : op a h h') :
    h'.graph L.refs b = h.graph L.refs b := by
  obtain ⟨side, ho, ha, hb⟩ := hab.sides
  exact (hop ho ⟨hab.left_lt, ha⟩ hstep).graph_eq ho hab.right_lt hb

/-- Two handles apart stay so, whatever is called on anything. -/
theorem Apart.step (hop : Local L op) (hab : Apart L h a b) (hroot : root < h.next)
    (hstep : op root h h') : Apart L h' a b := by
  obtain ⟨side, ho, ha, hb⟩ := hab.sides
  by_cases hside : root ∈ side
  · have hacts := hop ho ⟨hroot, hside⟩ hstep
    exact ⟨hab.left_lt.trans_le hacts.next_le, hab.right_lt.trans_le hacts.next_le, side,
      hacts.owns, ha, hb⟩
  · have hacts := hop ho.others ⟨hroot, (mem_others hroot).mpr hside⟩ hstep
    have hlta := hab.left_lt.trans_le hacts.next_le
    have hltb := hab.right_lt.trans_le hacts.next_le
    refine ⟨hlta, hltb, h'.others (h.others side), hacts.owns.others, ?_, ?_⟩
    · rw [mem_others hlta, mem_others hab.left_lt]
      exact not_not_intro ha
    · rw [mem_others hltb, mem_others hab.right_lt]
      exact not_not_intro hb

/-! ### Runs on two sides -/

/-- An operation called on one of the handles of a set. -/
def Calls (op : Handle → Heap α → Heap α → Prop) (A : Set Handle) (h h' : Heap α) : Prop :=
  ∃ a ∈ A, op a h h'

variable {A B : Set Handle}

/-- Two sets of handles stay apart while operations are called on either. -/
theorem apart_run (hop : Local L op) (hab : ∀ a ∈ A, ∀ b ∈ B, Apart L h a b)
    (hrun : Relation.ReflTransGen (fun h h' => Calls op A h h' ∨ Calls op B h h') h h') :
    ∀ a ∈ A, ∀ b ∈ B, Apart L h' a b := by
  induction hrun with
  | refl => exact hab
  | tail _ hstep ih =>
    intro a ha b hb
    rcases hstep with ⟨root, hroot, hstep⟩ | ⟨root, hroot, hstep⟩
    · exact (ih a ha b hb).step hop (ih root hroot b hb).left_lt hstep
    · exact (ih a ha b hb).step hop (ih a ha root hroot).right_lt hstep

/-- What is called on one set changes nothing for the other. -/
theorem graph_run (hop : Local L op) (hab : ∀ a ∈ A, ∀ b ∈ B, Apart L h a b)
    (hrun : Relation.ReflTransGen (Calls op A) h h') :
    ∀ b ∈ B, h'.graph L.refs b = h.graph L.refs b := by
  have hapart : ∀ {h₁}, Relation.ReflTransGen (Calls op A) h h₁ →
      ∀ a ∈ A, ∀ b ∈ B, Apart L h₁ a b := by
    intro h₁ hrun₁
    exact apart_run hop hab (Relation.ReflTransGen.mono (fun _ _ hcall => Or.inl hcall) _ _ hrun₁)
  induction hrun with
  | refl => exact fun _ _ => rfl
  | @tail h₁ h₂ hrun₁ hstep ih =>
    obtain ⟨root, hroot, hstep⟩ := hstep
    intro b hb
    exact ((hapart hrun₁ root hroot b hb).graph_eq hop hstep).trans (ih b hb)

end Sides
end Heap
end Foundation
