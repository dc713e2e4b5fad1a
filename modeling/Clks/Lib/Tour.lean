/-
Depth-first tours of a structure whose nodes are made of parts, where a
part has places that lead on to further nodes.

A `tour` lists the parts it comes to: those of the start in order, and
after each of them the tours of the nodes that it leads to. It follows
places, not nodes: a node that two places lead to is toured twice, and a
cycle is toured until the levels run out. `nodup_tour_iff` says when
that does not happen: when no part can be reached in two ways.
-/
import Mathlib

namespace Tour

variable {N P S : Type*} (parts : N → List P) (out : P → List (S × N))

/-- The parts that a tour of so many levels comes to. -/
def tour : Nat → N → List P
  | 0, _ => []
  | n + 1, d => (parts d).flatMap fun c =>
      c :: (out c).flatMap fun x => tour n x.2

/-- From one node to another by way of some places. -/
inductive Walk : N → List S → N → Prop
  | nil (d : N) : Walk d [] d
  | cons {d e f : N} {c : P} {s : S} {p : List S} :
      c ∈ parts d → (s, e) ∈ out c → Walk e p f → Walk d (s :: p) f

/-- There are walks of so many places. -/
def Deep : Nat → N → Prop
  | 0, _ => True
  | n + 1, d => ∃ c ∈ parts d, ∃ x ∈ out c, Deep n x.2

variable {parts out} {n : Nat} {d e f : N}

theorem deep_iff : Deep parts out n d ↔
    ∃ p e, Walk parts out d p e ∧ p.length = n := by
  induction n generalizing d with
  | zero => exact ⟨fun _ => ⟨[], d, .nil d, rfl⟩, fun _ => trivial⟩
  | succ n ih =>
    constructor
    · intro h
      obtain ⟨c, hc, ⟨s, x⟩, hx, hdeep⟩ := h
      obtain ⟨p, e, hp, hlen⟩ := ih.mp hdeep
      exact ⟨s :: p, e, .cons hc hx hp, by rw [List.length_cons, hlen]⟩
    · intro h
      obtain ⟨p, e, hp, hlen⟩ := h
      cases hp with
      | nil => cases hlen
      | @cons _ x _ c s q hc hx hq =>
        exact ⟨c, hc, (s, x), hx, ih.mpr ⟨q, e, hq, Nat.succ.inj hlen⟩⟩

theorem Deep.of_walk {p : List S} (h : Walk parts out d p e)
    (hn : n ≤ p.length) : Deep parts out n d := by
  induction n generalizing d p with
  | zero => trivial
  | succ n ih =>
    cases h with
    | nil => cases hn
    | @cons _ x _ c s q hc hx hq =>
      exact ⟨c, hc, (s, x), hx, ih hq (Nat.le_of_succ_le_succ hn)⟩

theorem not_deep_iff : ¬ Deep parts out (n + 1) d ↔
    ∀ p e, Walk parts out d p e → p.length ≤ n := by
  constructor
  · intro h p e hp
    by_contra hlen
    exact h (.of_walk hp (Nat.lt_of_not_le hlen))
  · intro h hdeep
    obtain ⟨p, e, hp, hlen⟩ := deep_iff.mp hdeep
    have := h p e hp
    omega

theorem not_deep_out (h : ¬ Deep parts out (n + 1) d) {c : P}
    (hc : c ∈ parts d) {x : S × N} (hx : x ∈ out c) :
    ¬ Deep parts out n x.2 :=
  fun hdeep => h ⟨c, hc, x, hx, hdeep⟩

theorem mem_tour (h : ¬ Deep parts out n d) {c : P} :
    c ∈ tour parts out n d
      ↔ ∃ p e, Walk parts out d p e ∧ c ∈ parts e := by
  induction n generalizing d with
  | zero => exact absurd trivial h
  | succ n ih =>
    simp only [tour, List.mem_flatMap, List.mem_cons]
    constructor
    · intro hc
      obtain ⟨c1, hc1, hc⟩ := hc
      rcases hc with rfl | ⟨x, hx, hc⟩
      · exact ⟨[], d, .nil d, hc1⟩
      · obtain ⟨p, e, hp, hce⟩ := (ih (not_deep_out h hc1 hx)).mp hc
        exact ⟨x.1 :: p, e, .cons hc1 hx hp, hce⟩
    · intro hc
      obtain ⟨p, e, hp, hce⟩ := hc
      cases hp with
      | nil => exact ⟨c, hce, .inl rfl⟩
      | @cons _ x _ c1 s q hc1 hx hq =>
        exact ⟨c1, hc1, .inr ⟨(s, x), hx,
          (ih (not_deep_out h hc1 hx)).mpr ⟨q, e, hq, hce⟩⟩⟩

/-- From a node, no part is reached in two ways. -/
def Once (parts : N → List P) (out : P → List (S × N)) (d : N) : Prop :=
  ∀ p e, Walk parts out d p e → (parts e).Nodup ∧
    ∀ p' e' c, Walk parts out d p' e' → c ∈ parts e → c ∈ parts e' → p = p'

theorem Once.below (h : Once parts out d) {c : P} (hc : c ∈ parts d)
    {x : S × N} (hx : x ∈ out c) : Once parts out x.2 := by
  intro p e hp
  obtain ⟨hnodup, huniq⟩ := h (x.1 :: p) e (.cons hc hx hp)
  refine ⟨hnodup, fun p' e' c' hp' hce hce' => ?_⟩
  have := huniq (x.1 :: p') e' c' (.cons hc hx hp') hce hce'
  exact List.tail_eq_of_cons_eq this

/-- The places of a part are told apart, also from those of the other
parts. -/
structure Places (out : P → List (S × N)) : Prop where
  nodup : ∀ c, ((out c).map Prod.fst).Nodup
  part : ∀ {c c' s e e'}, (s, e) ∈ out c → (s, e') ∈ out c' → c = c'

theorem eq_of_mem_blocks {α β : Type*} {f : α → List β} {l : List α}
    (h : l.Pairwise (Function.onFun List.Disjoint f)) {a b : α} {y : β}
    (ha : a ∈ l) (hb : b ∈ l) (hya : y ∈ f a) (hyb : y ∈ f b) : a = b := by
  have : Std.Symm (Function.onFun List.Disjoint f) :=
    ⟨fun _ _ hd _ hb ha => hd ha hb⟩
  by_contra hne
  exact h.forall ha hb hne hya hyb

theorem once_of_nodup (h : ¬ Deep parts out n d)
    (hn : (tour parts out n d).Nodup) : Once parts out d := by
  induction n generalizing d with
  | zero => exact absurd trivial h
  | succ n ih =>
    obtain ⟨hin, hpair⟩ := List.nodup_flatMap.mp hn
    -- The blocks that the parts start do not overlap.
    have hblock : ∀ {c1 c2 y : _}, c1 ∈ parts d → c2 ∈ parts d →
        y ∈ c1 :: (out c1).flatMap (fun x => tour parts out n x.2) →
        y ∈ c2 :: (out c2).flatMap (fun x => tour parts out n x.2) →
        c1 = c2 := by
      intro c1 c2 y h1 h2 hy1 hy2
      exact eq_of_mem_blocks hpair h1 h2 hy1 hy2
    have hdown : ∀ {c1 x y : _}, c1 ∈ parts d → x ∈ out c1 →
        (∃ q e, Walk parts out x.2 q e ∧ y ∈ parts e) →
        y ∈ (out c1).flatMap fun x => tour parts out n x.2 := by
      intro c1 x y h1 hx hy
      exact List.mem_flatMap.mpr
        ⟨x, hx, (mem_tour (not_deep_out h h1 hx)).mpr hy⟩
    intro p e hp
    constructor
    · cases hp with
      | nil =>
        refine List.Nodup.of_map (fun c => c) ?_
        rw [List.map_id']
        refine hpair.imp fun {a b} hab => ?_
        rintro rfl
        exact hab List.mem_cons_self List.mem_cons_self
      | @cons _ x _ c1 s q hc1 hx hq =>
        have htail := (List.nodup_cons.mp (hin c1 hc1)).2
        have hsub := (List.nodup_flatMap.mp htail).1 (s, x) hx
        exact (ih (not_deep_out h hc1 hx) hsub q e hq).1
    · intro p' e' c hp' hce hce'
      cases hp with
      | nil =>
        cases hp' with
        | nil => rfl
        | @cons _ x _ c1 s q hc1 hx hq =>
          have hy := hdown hc1 hx ⟨q, e', hq, hce'⟩
          obtain rfl : c = c1 :=
            hblock hce hc1 List.mem_cons_self (List.mem_cons_of_mem _ hy)
          exact absurd hy (List.nodup_cons.mp (hin c hce)).1
      | @cons _ x _ c1 s q hc1 hx hq =>
        have hy := hdown hc1 hx ⟨q, e, hq, hce⟩
        cases hp' with
        | nil =>
          obtain rfl : c = c1 :=
            hblock hce' hc1 List.mem_cons_self (List.mem_cons_of_mem _ hy)
          exact absurd hy (List.nodup_cons.mp (hin c hce')).1
        | @cons _ x' _ c2 s' q' hc2 hx' hq' =>
          have hy' := hdown hc2 hx' ⟨q', e', hq', hce'⟩
          obtain rfl : c1 = c2 := hblock hc1 hc2
            (List.mem_cons_of_mem _ hy) (List.mem_cons_of_mem _ hy')
          have htail := (List.nodup_cons.mp (hin c1 hc1)).2
          obtain ⟨hsub, hdis⟩ := List.nodup_flatMap.mp htail
          have hsame : (s, x) = (s', x') := eq_of_mem_blocks hdis hx hx'
            ((mem_tour (not_deep_out h hc1 hx)).mpr ⟨q, e, hq, hce⟩)
            ((mem_tour (not_deep_out h hc1 hx')).mpr ⟨q', e', hq', hce'⟩)
          cases hsame
          have honce := ih (not_deep_out h hc1 hx) (hsub (s, x) hx)
          rw [(honce q e hq).2 q' e' c hq' hce hce']

theorem nodup_of_once (hS : Places out) (h : ¬ Deep parts out n d)
    (ho : Once parts out d) : (tour parts out n d).Nodup := by
  induction n generalizing d with
  | zero => exact absurd trivial h
  | succ n ih =>
    have hup : ∀ {c x y : _}, c ∈ parts d → x ∈ out c →
        y ∈ tour parts out n x.2 →
        ∃ q e, Walk parts out d (x.1 :: q) e ∧ y ∈ parts e := by
      intro c x y hc hx hy
      obtain ⟨q, e, hq, hye⟩ := (mem_tour (not_deep_out h hc hx)).mp hy
      exact ⟨q, e, .cons hc hx hq, hye⟩
    have hd := ho [] d (.nil d)
    refine List.nodup_flatMap.mpr ⟨fun c hc => ?_, ?_⟩
    · refine List.nodup_cons.mpr ⟨fun hmem => ?_, ?_⟩
      · obtain ⟨x, hx, hy⟩ := List.mem_flatMap.mp hmem
        obtain ⟨q, e, hq, hce⟩ := hup hc hx hy
        cases hd.2 _ e c hq hc hce
      · refine List.nodup_flatMap.mpr ⟨fun x hx => ?_, ?_⟩
        · exact ih (not_deep_out h hc hx) (ho.below hc hx)
        · have hslots := List.pairwise_map.mp (hS.nodup c)
          refine hslots.imp_of_mem fun {x x'} hx hx' hne => ?_
          intro y hy hy'
          obtain ⟨q, e, hq, hye⟩ := hup hc hx hy
          obtain ⟨q', e', hq', hye'⟩ := hup hc hx' hy'
          have := (ho _ e hq).2 _ e' y hq' hye hye'
          exact hne (List.head_eq_of_cons_eq this)
    · refine List.Pairwise.imp_of_mem (fun {c c'} hc hc' hne => ?_) hd.1
      intro y hy hy'
      rcases List.mem_cons.mp hy with rfl | hy
      · rcases List.mem_cons.mp hy' with rfl | hy'
        · exact hne rfl
        · obtain ⟨x, hx, hy'⟩ := List.mem_flatMap.mp hy'
          obtain ⟨q, e, hq, hye⟩ := hup hc' hx hy'
          cases hd.2 _ e y hq hc hye
      · obtain ⟨x, hx, hy⟩ := List.mem_flatMap.mp hy
        obtain ⟨q, e, hq, hye⟩ := hup hc hx hy
        rcases List.mem_cons.mp hy' with rfl | hy'
        · cases hd.2 _ e y hq hc' hye
        · obtain ⟨x', hx', hy'⟩ := List.mem_flatMap.mp hy'
          obtain ⟨q', e', hq', hye'⟩ := hup hc' hx' hy'
          have := (ho _ e hq).2 _ e' y hq' hye hye'
          have hs := List.head_eq_of_cons_eq this
          have hsame : (x.1, x'.2) ∈ out c' := by
            rw [hs]
            exact hx'
          exact hne (hS.part hx hsame)

theorem nodup_tour_iff (hS : Places out) (h : ¬ Deep parts out n d) :
    (tour parts out n d).Nodup ↔ Once parts out d :=
  ⟨once_of_nodup h, nodup_of_once hS h⟩

end Tour
