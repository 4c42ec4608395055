/-
# How many levels a tree needs

An evaluation inside another takes one level more.  In a call these are the evaluations of
the operator and the operands, in a definition or an assignment that of the expression.  So
a tree whose parts are all evaluated takes as many levels as it is high (`SExpr.height`):
an evaluation that succeeds has used them (`height_le_of_eval_eq_ok`).

The body of a user procedure is evaluated too, and may call the procedure again.  Without
user procedures there is nothing but the tree.  None come up where none is within reach and
`define` is never given a list as its target (`withoutProcedures`), and there the height of
the tree is also enough (`eval_staysWithin`).

The reader bounds the nesting of the lists, and hence the height (`SExpr.height_le_nesting`).
That bound is far below the limit that evaluation has by default.
-/

import StrictScheme.Proofs.Eval.Depth
import StrictScheme.Proofs.Eval.Local
import StrictScheme.Proofs.Reader.Parse

namespace StrictScheme

variable {α β : Type} {limit : UInt64} {fuel : Nat} {a b c : Store} {s : ScopeId} {v : Value}
  {tree : SExpr}

/-! ### Height -/

namespace SExpr

mutual

/-- The height of a tree: an atom has height one, and a list is one higher than its highest
element. -/
def height : SExpr → Nat
  | .atom _ => 1
  | .list elements => heightAll elements + 1

/-- The height of the highest of some trees. -/
def heightAll : List SExpr → Nat
  | [] => 0
  | first :: rest => max (height first) (heightAll rest)

end

/-- A bound for the heights of some trees is one for each of them. -/
theorem heightAll_le {n : Nat} {trees : List SExpr} :
    heightAll trees ≤ n ↔ ∀ tree ∈ trees, tree.height ≤ n := by
  induction trees with
  | nil => simp [heightAll]
  | cons first rest ih => rw [heightAll, Nat.max_le, ih, List.forall_mem_cons]

/-- A list is higher by one than its highest element. -/
theorem height_list_le {n : Nat} {elements : List SExpr} :
    (SExpr.list elements).height ≤ n + 1 ↔ ∀ tree ∈ elements, tree.height ≤ n := by
  rw [height, Nat.add_le_add_iff_right, heightAll_le]

/-- Every tree has a height. -/
theorem height_pos (tree : SExpr) : 0 < tree.height := by
  cases tree with
  | atom token => exact Nat.one_pos
  | list elements => exact Nat.succ_pos _

/-- A definition or assignment of a name is one higher than its expression. -/
theorem height_form (form : SpecialForm) (name : String) (expr : SExpr) :
    (SExpr.list [.atom form.keyword, .atom name, expr]).height = expr.height + 1 := by
  have hpos := expr.height_pos
  simp only [height, heightAll]
  omega

mutual

/-- The height of a tree is one more than its lists are nested, at most. -/
theorem height_le_nesting : (tree : SExpr) → tree.height ≤ tree.nesting + 1
  | .atom _ => Nat.le_refl 1
  | .list elements => Nat.succ_le_succ (heightAll_le_nestingAll elements)

/-- So is the height of each tree in a list. -/
theorem heightAll_le_nestingAll : (trees : List SExpr) → heightAll trees ≤ nestingAll trees + 1
  | [] => Nat.zero_le _
  | first :: rest => by
    have hfirst := height_le_nesting first
    have hrest := heightAll_le_nestingAll rest
    rw [heightAll, nestingAll]
    omega

end

/-! ### Definitions of procedures -/

/-- Whether a list of these elements gives `define` a list as its target. -/
def targetsList : List SExpr → Bool
  | .atom token :: .list _ :: _ => token == SpecialForm.define.keyword
  | _ => false

mutual

/-- Whether `define` is given a list as its target anywhere in a tree. -/
def definesProcedure : SExpr → Bool
  | .atom _ => false
  | .list elements => targetsList elements || definesProcedureAny elements

/-- The same of trees that stand one after the other. -/
def definesProcedureAny : List SExpr → Bool
  | [] => false
  | first :: rest => definesProcedure first || definesProcedureAny rest

end

/-- None of some trees defines a procedure just when each of them does not. -/
theorem definesProcedureAny_eq_false {trees : List SExpr} :
    definesProcedureAny trees = false ↔ ∀ tree ∈ trees, tree.definesProcedure = false := by
  induction trees with
  | nil => simp [definesProcedureAny]
  | cons first rest ih =>
    rw [definesProcedureAny, Bool.or_eq_false_iff, ih, List.forall_mem_cons]

/-- The elements of a list define no procedure if the list does not. -/
theorem definesProcedure_of_mem {elements : List SExpr}
    (h : (SExpr.list elements).definesProcedure = false) (htree : tree ∈ elements) :
    tree.definesProcedure = false := by
  rw [definesProcedure, Bool.or_eq_false_iff, definesProcedureAny_eq_false] at h
  exact h.2 tree htree

/-- A definition with a signature defines a procedure. -/
theorem definesProcedure_define (signature : List SExpr) (operands : List SExpr) :
    (SExpr.list (.atom SpecialForm.define.keyword ::
      .list signature :: operands)).definesProcedure = true := by
  simp [definesProcedure, targetsList]

end SExpr

/-! ### What succeeds has used its levels -/

namespace Action

/-- An action succeeds after another one if both do. -/
theorem bind_eq_ok {x : Action α} {f : α → Action β} {w : β} :
    (x >>= f) a = .ok w c ↔ ∃ u b, x a = .ok u b ∧ f u b = .ok w c := by
  simp only [Bind.bind, EStateM.bind]
  cases x a with
  | ok u b => simp
  | error e b => simp

/-- A computation without the store leaves the store. -/
theorem ofExcept_eq_ok {x : Except Error α} {u : α} :
    Action.ofExcept x a = .ok u b ↔ x = .ok u ∧ b = a := by
  cases x with
  | ok w =>
    change EStateM.Result.ok w a = .ok u b ↔ _
    simp [eq_comm]
  | error e => exact ⟨nofun, nofun⟩

end Action

open StrictScheme.Action

/-- Operands have values one by one. -/
theorem exists_of_evalOperands_eq_ok {eval : SExpr → Action Value} {operands : List SExpr}
    {args : List Value} (h : evalOperands eval operands a = .ok args b) (htree : tree ∈ operands) :
    ∃ v before after, eval tree before = .ok v after := by
  induction operands generalizing a args b with
  | nil => exact absurd htree List.not_mem_nil
  | cons first rest ih =>
    obtain ⟨v, middle, hfirst, hothers⟩ := bind_eq_ok.1 h
    obtain ⟨vs, after, hrest, -⟩ := bind_eq_ok.1 hothers
    rcases List.mem_cons.1 htree with rfl | htree
    · exact ⟨v, a, middle, hfirst⟩
    · exact ih hrest htree

/-- A special form succeeds as the definition of a procedure, or with a name as its target and the
value of its expression. -/
theorem SpecialForm.run_eq_ok {form : SpecialForm} {eval : SExpr → Action Value}
    {operands : List SExpr} (h : form.run eval s operands a = .ok v b) :
    (∃ signature body, form = .define ∧ operands = [.list signature, body]) ∨
      ∃ name expr after, operands = [.atom name, expr] ∧ Atom.ofToken name = .identifier name ∧
        eval expr a = .ok v after := by
  have hvalue {target expr : SExpr} {put : String → Value → Action Unit}
      (hform : (do let name ← Action.ofExcept (form.identifier target)
                   let v ← eval expr
                   put name v
                   return v : Action Value) a = .ok v b) :
      ∃ name after, target = .atom name ∧ Atom.ofToken name = .identifier name ∧
        eval expr a = .ok v after := by
    obtain ⟨name, start, hname, hnamed⟩ := bind_eq_ok.1 hform
    obtain ⟨hname, hstart⟩ := ofExcept_eq_ok.1 hname
    obtain ⟨w, after, hexpr, hput⟩ := bind_eq_ok.1 hnamed
    obtain ⟨_, _, -, hreturn⟩ := bind_eq_ok.1 hput
    obtain ⟨rfl, -⟩ := EStateM.Result.ok.inj hreturn
    obtain ⟨htarget, hatom⟩ := SpecialForm.identifier_eq_ok hname
    exact ⟨name, after, htarget, hatom, hstart ▸ hexpr⟩
  unfold SpecialForm.run at h
  split at h
  · exact .inl ⟨_, _, rfl, rfl⟩
  · obtain ⟨name, after, rfl, hatom, hexpr⟩ := hvalue h
    exact .inr ⟨name, _, after, rfl, hatom, hexpr⟩
  · obtain ⟨name, after, rfl, hatom, hexpr⟩ := hvalue h
    exact .inr ⟨name, _, after, rfl, hatom, hexpr⟩
  · cases h

/-- **An evaluation that succeeds has had as many levels as the tree is high**, unless it defined
a procedure. -/
theorem height_le_of_eval_eq_ok (h : eval limit fuel s tree a = .ok v b)
    (htree : tree.definesProcedure = false) : tree.height ≤ fuel := by
  induction fuel generalizing tree a v b with
  | zero => cases h
  | succ fuel ih =>
    rcases tree with token | (_ | ⟨head, operands⟩)
    · exact Nat.succ_le_succ (Nat.zero_le _)
    · cases h
    · have helement {element : SExpr} (hmem : element ∈ head :: operands) :=
        SExpr.definesProcedure_of_mem htree hmem
      rw [eval] at h
      cases hform : head.specialForm? with
      | some form =>
        obtain rfl := SExpr.eq_atom_of_specialForm? hform
        simp only [hform] at h
        obtain ⟨_, _, -, hrun⟩ := bind_eq_ok.1 h
        rcases SpecialForm.run_eq_ok hrun with
          ⟨signature, body, rfl, rfl⟩ | ⟨name, expr, after, rfl, -, hexpr⟩
        · rw [SExpr.definesProcedure_define] at htree
          cases htree
        · rw [SExpr.height_form]
          exact Nat.succ_le_succ (ih hexpr (helement (by simp)))
      | none =>
        simp only [hform] at h
        obtain ⟨w, middle, hhead, hcall⟩ := bind_eq_ok.1 h
        -- a call of either kind succeeds only if all operands do
        have hoperands : ∃ args after,
            evalOperands (eval limit fuel s) operands middle = .ok args after := by
          cases w with
          | number | boolean => cases hcall
          | builtin | procedure =>
            obtain ⟨args, after, hargs, -⟩ := bind_eq_ok.1 hcall
            exact ⟨args, after, hargs⟩
        obtain ⟨args, after, hargs⟩ := hoperands
        refine SExpr.height_list_le.2 fun element hmem => ?_
        rcases List.mem_cons.1 hmem with rfl | hoperand
        · exact ih hhead (helement hmem)
        · obtain ⟨u, before, after', hu⟩ := exists_of_evalOperands_eq_ok hargs hoperand
          exact ih hu (helement hmem)

/-! ### Without user procedures -/

/-- **Where no user procedure is within reach, none comes up**, unless one is defined. -/
def withoutProcedures (region : Set ScopeId) : Discipline where
  Inv := Store.Governs region fun _ => False
  Place _ s := s ∈ region
  Tree tree := tree.definesProcedure = false
  Val _ v := v.Satisfies fun _ => False
  Change _ _ _ := True
  refl _ _ := trivial
  trans _ _ := trivial
  place_mono _ h := h
  val_mono _ h := h
  element := SExpr.definesProcedure_of_mem
  plain := Value.satisfies_of_procedure?_eq_none
  lookup h hs hv := h.lookup hs hv
  define h _ hv _ _ _ := ⟨h.bind hv _ _, trivial⟩
  assign h _ hv _ _ := ⟨h.bind hv _ _, trivial⟩
  procedure _ _ htree _ _ _ _ :=
    absurd ((SExpr.definesProcedure_define ..).symm.trans htree) nofun
  enter _ hp _ _ := (hp _ rfl).elim

namespace Discipline

variable {d : Discipline} {J : Store → α → Prop} {eval : SExpr → Action Value}

/-- What keeps to a discipline and succeeds has a value that it allows. -/
theorem Keeps.of_eq_ok {x : Action α} {u : α} (h : d.Keeps s J x a) (hx : x a = .ok u b) :
    d.Inv b ∧ d.Change s a b ∧ J b u := by
  have hexec : x.exec a = (.ok u, b) := by rw [Action.exec, hx]
  obtain ⟨hinv, hchange, hresult⟩ := h
  rw [hexec] at hinv hchange hresult
  exact ⟨hinv, hchange, hresult rfl⟩

/-- Operands stay within the levels that each of them stays within. -/
theorem evalOperands_staysWithin (hkeeps : d.EvalKeeps s eval) {operands : List SExpr}
    (h : d.Inv a) (hs : d.Place a s) (htrees : ∀ tree ∈ operands, d.Tree tree)
    (heval : ∀ tree ∈ operands, ∀ b, d.Inv b → d.Place b s → StaysWithin (eval tree) b) :
    StaysWithin (evalOperands eval operands) a := by
  induction operands generalizing a with
  | nil => exact .pure ..
  | cons first rest ih =>
    obtain ⟨hfirst, hrest⟩ := List.forall_mem_cons.1 htrees
    obtain ⟨hevalFirst, hevalRest⟩ := List.forall_mem_cons.1 heval
    refine .bind (hevalFirst a h hs) fun u b hu => ?_
    obtain ⟨hinv, hchange, -⟩ := (hkeeps h hs hfirst).of_eq_ok hu
    refine .bind (ih hinv (d.place_mono hchange hs) hrest hevalRest) fun us c _ => ?_
    exact .pure ..

end Discipline

/-- A special form stays within the levels that its operands stay within. -/
theorem SpecialForm.run_staysWithin {eval : SExpr → Action Value} (form : SpecialForm)
    {operands : List SExpr} (heval : ∀ tree ∈ operands, StaysWithin (eval tree) a) :
    StaysWithin (form.run eval s operands) a := by
  have hvalue {target expr : SExpr} {put : String → Value → Action Unit}
      (hexpr : StaysWithin (eval expr) a) (hput : ∀ name v b, StaysWithin (put name v) b) :
      StaysWithin
        (do let name ← Action.ofExcept (form.identifier target)
            let v ← eval expr
            put name v
            return v : Action Value) a := by
    refine .bind (.ofExcept (form.identifier_neverExhausts target)) fun name b hname => ?_
    obtain ⟨-, rfl⟩ := ofExcept_eq_ok.1 hname
    refine .bind hexpr fun v c _ => .bind (hput name v c) fun _ _ _ => ?_
    exact .pure ..
  unfold SpecialForm.run
  split
  · exact defineProcedure_staysWithin ..
  · exact hvalue (heval _ (by simp)) (Action.define_staysWithin s)
  · exact hvalue (heval _ (by simp)) (Action.assign_staysWithin s)
  · exact .throw nofun

/-- **Without user procedures, as many levels as the tree is high are enough.** -/
theorem eval_staysWithin {region : Set ScopeId} (h : a.Governs region fun _ => False)
    (hs : s ∈ region) (htree : tree.definesProcedure = false) (hfuel : tree.height ≤ fuel) :
    StaysWithin (eval limit fuel s tree) a := by
  induction fuel generalizing tree a with
  | zero => exact absurd tree.height_pos (Nat.not_lt_of_le hfuel)
  | succ fuel ih =>
    rcases tree with token | (_ | ⟨head, operands⟩)
    · exact evalAtom_staysWithin ..
    · exact .throw (by rintro ⟨⟩)
    · have hlevels := SExpr.height_list_le.1 hfuel
      have helement {element : SExpr} (hmem : element ∈ head :: operands) :=
        SExpr.definesProcedure_of_mem htree hmem
      have hkeeps : (withoutProcedures region).EvalKeeps s (eval limit fuel s) :=
        Discipline.eval_keeps _ limit fuel s
      have hoperands (b : Store) (h : b.Governs region fun _ => False) :
          StaysWithin (evalOperands (eval limit fuel s) operands) b :=
        Discipline.evalOperands_staysWithin hkeeps h hs
          (fun tree hmem => helement (List.mem_cons_of_mem _ hmem))
          fun tree hmem b h _ => ih h (helement (List.mem_cons_of_mem _ hmem))
            (hlevels tree (List.mem_cons_of_mem _ hmem))
      have hhead : StaysWithin (eval limit fuel s head) a :=
        ih h (helement List.mem_cons_self) (hlevels head List.mem_cons_self)
      rw [eval]
      cases hform : head.specialForm? with
      | some form =>
        refine .bind (.ofExcept (Arity.validate_neverExhausts ..)) fun _ b hvalid => ?_
        obtain ⟨-, rfl⟩ := ofExcept_eq_ok.1 hvalid
        exact form.run_staysWithin fun tree hmem =>
          ih h (helement (List.mem_cons_of_mem _ hmem)) (hlevels tree (List.mem_cons_of_mem _ hmem))
      | none =>
        refine .bind hhead fun v b hv => ?_
        obtain ⟨hinv, -, hval⟩ := (hkeeps h hs (helement List.mem_cons_self)).of_eq_ok hv
        cases v with
        | number | boolean => exact .throw (by rintro ⟨⟩)
        | builtin f =>
          refine .bind (hoperands b hinv) fun args c _ => ?_
          exact .ofExcept (f.call_neverExhausts args)
        | procedure p => exact (hval p rfl).elim

/-! ### Limits -/

/-- **The height of a tree is the number of levels it needs**, where no user procedure is within
reach and `define` is never given a list as its target.  A limit that is not lower is never
exhausted.  If the evaluation succeeds then every lower limit is, and is reported.  No tree that
the reader returns is as high as the limit that evaluation has by default. -/
theorem Store.Sound.evaluate_height_exact {store : Store} (h : store.Sound) (hs : store.Has s)
    (hnone : ∀ p, ¬ store.ReachesProcedure [s] p) (htree : tree.definesProcedure = false) :
    (∀ limit : UInt64, tree.height ≤ limit.toNat → ¬ Exhausts limit s tree store) ∧
    (∀ limit v after, evaluate limit s tree store = .ok v after →
      ∀ few : UInt64, few.toNat < tree.height →
        ∃ after, evaluate few s tree store = .error (.stackExhausted few) after) ∧
    ∀ comments text, read comments text = .ok tree →
      tree.height ≤ maxNesting + 1 ∧ maxNesting + 1 < ({} : Config).maxDepth.toNat ∧
        ¬ Exhausts ({} : Config).maxDepth s tree store := by
  have hgoverns : store.Governs (Reaches.orFresh store [s]) fun _ => False :=
    h.governs hs fun p hp => hnone p hp
  have henough (limit : UInt64) (hlimit : tree.height ≤ limit.toNat) :
      ¬ Exhausts limit s tree store := by
    rintro ⟨reported, after, hout⟩
    exact (eval_staysWithin hgoverns (.inl (.start (List.mem_singleton.2 rfl))) htree
      hlimit).ne_exhausted hout
  refine ⟨henough, fun limit v after hok few hfew => ?_, fun comments text hread => ?_⟩
  · have hhigh : tree.height ≤ limit.toNat := height_le_of_eval_eq_ok hok htree
    have hle : few ≤ limit := UInt64.le_iff_toNat_le.2 (by omega)
    rcases evaluate_approximates hle s tree store with hout | ⟨hsame, -⟩
    · exact hout
    · -- with so few levels the evaluation would succeed as well
      have hfits := height_le_of_eval_eq_ok (hsame.symm.trans hok) htree
      exact absurd hfits (Nat.not_le_of_lt hfew)
  · have hheight : tree.height ≤ maxNesting + 1 :=
      tree.height_le_nesting.trans (Nat.succ_le_succ (writes_of_read_eq_ok hread).nesting)
    have hdefault : maxNesting + 1 < ({} : Config).maxDepth.toNat := by decide
    exact ⟨hheight, hdefault, henough _ (by omega)⟩

/-- A sum inside a sum is three levels high, and needs as many. -/
theorem nestedSum_height_exact :
    let store := (({} : Store).newScope none globalBindings).2
    read false "(+ 1 (+ 2 3))" = .ok nestedSum ∧ nestedSum.height = 3 ∧
      ¬ Exhausts 3 0 nestedSum store ∧
      (∃ after, evaluate 2 0 nestedSum store = .error (.stackExhausted 2) after) ∧
      ¬ Exhausts ({} : Config).maxDepth 0 nestedSum store := by
  intro store
  have hsound : store.Sound := (Session.Reachable.new {}).sound.store
  have hhas : store.Has 0 := Option.isSome_iff_exists.1 (by decide)
  have hall : store.boundProcedures = [] := by decide +kernel
  have hnone : ∀ p, ¬ store.ReachesProcedure [0] p := by
    intro p hp
    have hmem := hp.mem_boundProcedures
    rw [hall] at hmem
    exact List.not_mem_nil hmem
  have hread : read false "(+ 1 (+ 2 3))" = .ok nestedSum := by decide +kernel
  have hplain : nestedSum.definesProcedure = false := by decide
  obtain ⟨henough, hfew, hdefault⟩ := hsound.evaluate_height_exact hhas hnone hplain
  have hthree : evaluate 3 0 nestedSum store = .ok (.number 6) store := by rfl
  exact ⟨hread, by decide, henough 3 (by decide), hfew 3 _ _ hthree 2 (by decide),
    (hdefault false _ hread).2.2⟩

end StrictScheme
