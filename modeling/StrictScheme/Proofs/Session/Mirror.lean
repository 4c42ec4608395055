/-
# Sessions that mirror each other

A session mirrors another one, on some names of the host and on a region of the store,
when it has the same under these names and the same scopes in the region, all of it
under a renaming (`Session.Mirrors`).  What stands under the other names, and outside
the region, is left open in both.

A step that mentions none but these names, and that takes no scope out, goes in lockstep
on sessions that mirror each other: the answer is the same under the renaming, and
nothing changes under the other names or outside the region (`Host.perform_mirrors`).
-/

import StrictScheme.Proofs.Eval.Transport
import StrictScheme.Proofs.Session.Holdings

namespace StrictScheme

/-- An answer under other numbers. -/
def Answer.rename (r : Renaming) : Answer → Answer
  | .value v => .value (v.rename r)
  | answer => answer

namespace Session

variable {names : HostName → Bool} {r : Renaming} {region : Region} {a b : Session} {s : ScopeId}
  {id : ProcedureId} {v : Value} {name : String}

/-- The second session is, on some names and on a region, the first one under a renaming. -/
structure Mirrors (names : HostName → Bool) (r : Renaming) (region : Region) (a b : Session) :
    Prop where
  config : b.config = a.config
  holdings : b.holdings names = (a.holdings names).rename r
  isIn : (a.holdings names).IsIn region a.store
  store : Store.Corresponds r region a.store b.store

/-- What may happen to a session: nothing under the other names, and in the store what a program
may do. -/
structure Within (names : HostName → Bool) (region : Region) (before after : Session) :
    Prop where
  config : after.config = before.config
  others : after.holdings (!names ·) = before.holdings (!names ·)
  store : before.store.Extends region after.store

/-- Nothing happens to a session that is left as it is. -/
theorem Within.refl (names : HostName → Bool) (region : Region) (session : Session) :
    Within names region session session :=
  ⟨rfl, rfl, (Store.correspondence .same region).refl session.store⟩

/-- Sessions that mirror each other, and what may happen to the first one. -/
def mirroring (names : HostName → Bool) (r : Renaming) (region : Region) :
    Coupling Session Session where
  Related := Mirrors names r region
  Allowed := Within names region
  refl := Within.refl names region
  trans h h' := ⟨h'.config.trans h.config, h'.others.trans h.others,
    (Store.correspondence r region).trans h.store h'.store⟩

namespace Mirrors

/-! ### What stands under a name -/

/-- The global scope under other numbers. -/
theorem global (h : Mirrors names r region a b) (hname : names .global = true) :
    b.global = a.global.map r.scope := by
  have hheld := congrArg Holdings.global h.holdings
  simpa only [Session.holdings, Holdings.rename, if_pos hname] using hheld

/-- It is one of the region, and it exists. -/
theorem global_mem (h : Mirrors names r region a b) (hname : names .global = true)
    (hs : a.global = some s) : s ∈ region.scopes ∧ a.store.Has s := by
  refine h.isIn.roots s (Holdings.mem_roots.2 (.inl ?_))
  rw [Session.holdings, if_pos hname, hs]

/-- What a handle refers to, under other numbers. -/
theorem handle (h : Mirrors names r region a b) (hname : names (.handle name) = true) :
    b.handles.get? name = (a.handles.get? name).map r.scope := by
  have hheld := congrArg (·.handles.get? name) h.holdings
  rwa [Holdings.rename, Table.get?_map, Session.holdings, Session.holdings,
    Table.get?_only hname, Table.get?_only hname] at hheld

/-- It is a scope of the region, and it exists. -/
theorem handle_mem (h : Mirrors names r region a b) (hname : names (.handle name) = true)
    (hs : a.handles.get? name = some s) : s ∈ region.scopes ∧ a.store.Has s := by
  refine h.isIn.roots s (Holdings.mem_roots.2 (.inr (.inl ?_)))
  exact Table.mem_values_of_get? ((Table.get?_only hname _).trans hs)

/-- What a slot holds, under other numbers. -/
theorem slot (h : Mirrors names r region a b) (hname : names (.slot name) = true) :
    b.slots.get? name = (a.slots.get? name).map (Value.rename r) := by
  have hheld := congrArg (·.slots.get? name) h.holdings
  rwa [Holdings.rename, Table.get?_map, Session.holdings, Session.holdings,
    Table.get?_only hname, Table.get?_only hname] at hheld

/-- It can be used in the region. -/
theorem slot_isIn (h : Mirrors names r region a b) (hname : names (.slot name) = true)
    (hv : a.slots.get? name = some v) : v.IsIn region a.store :=
  h.isIn.slot (Table.mem_values_of_get? ((Table.get?_only hname _).trans hv))

/-- What is watched, under other numbers. -/
theorem watch (h : Mirrors names r region a b) (hname : names (.watch name) = true) :
    b.watches.get? name = (a.watches.get? name).map r.procedure := by
  have hheld := congrArg (·.watches.get? name) h.holdings
  rwa [Holdings.rename, Table.get?_map, Session.holdings, Session.holdings,
    Table.get?_only hname, Table.get?_only hname] at hheld

/-! ### Changing both sessions -/

/-- Other stores that correspond. -/
theorem setStore (h : Mirrors names r region a b) {sa sb : Store}
    (hstore : Store.Corresponds r region sa sb) (hle : a.store.Extends region sa) :
    Mirrors names r region { a with store := sa } { b with store := sb } :=
  ⟨h.config, h.holdings, h.isIn.extends hle, hstore⟩

/-- Both sessions take a handle. -/
theorem insertHandle (h : Mirrors names r region a b) (hname : names (.handle name) = true)
    (hs : s ∈ region.scopes ∧ a.store.Has s) :
    Mirrors names r region { a with handles := a.handles.insert name s }
      { b with handles := b.handles.insert name (r.scope s) } := by
  obtain ⟨hglobal, hhandles, hslots, hwatches⟩ := Holdings.mk.inj h.holdings
  have hisIn := h.isIn.insertHandle name hs
  refine ⟨h.config, Holdings.ext hglobal ?_ hslots hwatches, ?_, h.store⟩
  · simp only [Session.holdings, Holdings.rename]
    rw [Table.only_insert_of_keep hname, Table.only_insert_of_keep hname, Table.map_insert,
      hhandles]
    rfl
  · rwa [Session.holdings, ← Table.only_insert_of_keep hname] at hisIn

/-- Both sessions drop a handle. -/
theorem eraseHandle (h : Mirrors names r region a b) (name : String) :
    Mirrors names r region { a with handles := a.handles.erase name }
      { b with handles := b.handles.erase name } := by
  obtain ⟨hglobal, hhandles, hslots, hwatches⟩ := Holdings.mk.inj h.holdings
  have hisIn := h.isIn.eraseHandle name
  refine ⟨h.config, Holdings.ext hglobal ?_ hslots hwatches, ?_, h.store⟩
  · simp only [Session.holdings, Holdings.rename]
    rw [Table.only_erase, Table.only_erase, Table.map_erase, hhandles]
    rfl
  · rwa [Session.holdings, ← Table.only_erase] at hisIn

/-- Both sessions keep a value. -/
theorem insertSlot (h : Mirrors names r region a b) (hname : names (.slot name) = true)
    (hv : v.IsIn region a.store) :
    Mirrors names r region { a with slots := a.slots.insert name v }
      { b with slots := b.slots.insert name (v.rename r) } := by
  obtain ⟨hglobal, hhandles, hslots, hwatches⟩ := Holdings.mk.inj h.holdings
  have hisIn := h.isIn.insertSlot name hv
  refine ⟨h.config, Holdings.ext hglobal hhandles ?_ hwatches, ?_, h.store⟩
  · simp only [Session.holdings, Holdings.rename]
    rw [Table.only_insert_of_keep hname, Table.only_insert_of_keep hname, Table.map_insert, hslots]
    rfl
  · rwa [Session.holdings, ← Table.only_insert_of_keep hname] at hisIn

/-- Both sessions drop a slot. -/
theorem eraseSlot (h : Mirrors names r region a b) (name : String) :
    Mirrors names r region { a with slots := a.slots.erase name }
      { b with slots := b.slots.erase name } := by
  obtain ⟨hglobal, hhandles, hslots, hwatches⟩ := Holdings.mk.inj h.holdings
  have hisIn := h.isIn.eraseSlot name
  refine ⟨h.config, Holdings.ext hglobal hhandles ?_ hwatches, ?_, h.store⟩
  · simp only [Session.holdings, Holdings.rename]
    rw [Table.only_erase, Table.only_erase, Table.map_erase, hslots]
    rfl
  · rwa [Session.holdings, ← Table.only_erase] at hisIn

/-- Both sessions watch a procedure. -/
theorem insertWatch (h : Mirrors names r region a b) (hname : names (.watch name) = true)
    (hid : region.Admits a.store id) :
    Mirrors names r region { a with watches := a.watches.insert name id }
      { b with watches := b.watches.insert name (r.procedure id) } := by
  obtain ⟨hglobal, hhandles, hslots, hwatches⟩ := Holdings.mk.inj h.holdings
  have hisIn := h.isIn.insertWatch name hid
  refine ⟨h.config, Holdings.ext hglobal hhandles hslots ?_, ?_, h.store⟩
  · simp only [Session.holdings, Holdings.rename]
    rw [Table.only_insert_of_keep hname, Table.only_insert_of_keep hname, Table.map_insert,
      hwatches]
    rfl
  · rwa [Session.holdings, ← Table.only_insert_of_keep hname] at hisIn

end Mirrors

/-! ### What happens under the other names -/

/-- Taking a handle changes nothing under the other names. -/
theorem holdings_insertHandle (hname : names (.handle name) = true) :
    ({ a with handles := a.handles.insert name s } : Session).holdings (!names ·) =
      a.holdings (!names ·) := by
  simp only [holdings]
  rw [Table.only_insert_of_not_keep (by rw [hname]; rfl)]

/-- Nor does dropping it. -/
theorem holdings_eraseHandle (hname : names (.handle name) = true) :
    ({ a with handles := a.handles.erase name } : Session).holdings (!names ·) =
      a.holdings (!names ·) := by
  simp only [holdings]
  rw [Table.only_erase_of_not_keep (by rw [hname]; rfl)]

/-- Keeping a value changes nothing under the other names. -/
theorem holdings_insertSlot (hname : names (.slot name) = true) :
    ({ a with slots := a.slots.insert name v } : Session).holdings (!names ·) =
      a.holdings (!names ·) := by
  simp only [holdings]
  rw [Table.only_insert_of_not_keep (by rw [hname]; rfl)]

/-- Nor does dropping it. -/
theorem holdings_eraseSlot (hname : names (.slot name) = true) :
    ({ a with slots := a.slots.erase name } : Session).holdings (!names ·) =
      a.holdings (!names ·) := by
  simp only [holdings]
  rw [Table.only_erase_of_not_keep (by rw [hname]; rfl)]

/-- Watching a procedure changes nothing under the other names. -/
theorem holdings_insertWatch (hname : names (.watch name) = true) :
    ({ a with watches := a.watches.insert name id } : Session).holdings (!names ·) =
      a.holdings (!names ·) := by
  simp only [holdings]
  rw [Table.only_insert_of_not_keep (by rw [hname]; rfl)]

/-! ### Programs -/

/-- What runs in lockstep on the stores runs in lockstep on the sessions. -/
theorem Mirrors.run {α β : Type} {J : Store → α → β → Prop} {x : Action α} {y : Action β}
    (h : Mirrors names r region a b)
    (hxy : Lockstep (Store.correspondence r region) J x y a.store b.store) :
    Mirrors names r region (a.run x).2 (b.run y).2 ∧ Within names region a (a.run x).2 ∧
      Outcome (J (a.run x).2.store) (a.run x).1 (b.run y).1 := by
  unfold Lockstep at hxy
  cases hx : x a.store with
  | error e sa =>
    cases hy : y b.store with
    | ok v sb => simp only [hx, hy] at hxy
    | error e' sb =>
      simp only [hx, hy] at hxy
      obtain ⟨hstore, hle, rfl⟩ := hxy
      simp only [Session.run, hx, hy]
      exact ⟨h.setStore hstore hle, ⟨rfl, rfl, hle⟩, rfl⟩
  | ok u sa =>
    cases hy : y b.store with
    | error e' sb => simp only [hx, hy] at hxy
    | ok v sb =>
      simp only [hx, hy] at hxy
      obtain ⟨hstore, hle, hJ⟩ := hxy
      simp only [Session.run, hx, hy]
      exact ⟨h.setStore hstore hle, ⟨rfl, rfl, hle⟩, hJ⟩

/-- **Evaluating a tree in sessions that mirror each other.** -/
theorem Mirrors.run_evaluate (h : Mirrors names r region a b) (limit : UInt64) (tree : SExpr)
    (hs : s ∈ region.scopes ∧ a.store.Has s) :
    Mirrors names r region (a.run (evaluate limit s tree)).2
        (b.run (evaluate limit (r.scope s) tree)).2 ∧
      Within names region a (a.run (evaluate limit s tree)).2 ∧
      Outcome (Value.Transported r region (a.run (evaluate limit s tree)).2.store)
        (a.run (evaluate limit s tree)).1 (b.run (evaluate limit (r.scope s) tree)).1 :=
  h.run (eval_lockstep limit limit.toNat hs.1 tree _ _ h.store hs.2)

end Session

/-! ### The parts of a step -/

namespace Host

open Session

variable {names : HostName → Bool} {r : Renaming} {region : Region} {a b : Session}

/-- The second scope is the first one renamed, which is one of the region that exists. -/
def ScopeMirrored (r : Renaming) (region : Region) (session : Session) (s t : ScopeId) : Prop :=
  t = r.scope s ∧ s ∈ region.scopes ∧ session.store.Has s

/-- The second value is the first one renamed, which can be used in the region. -/
def ValueMirrored (r : Renaming) (region : Region) (session : Session) (u v : Value) : Prop :=
  u.Transported r region session.store v

/-- The second answer is the first one renamed. -/
def AnswerMirrored (r : Renaming) (_ : Session) (u v : Answer) : Prop :=
  v = u.rename r

/-- A scope is found under its name in both sessions, or in none. -/
theorem scope_mirrors (h : Mirrors names r region a b) {name : ScopeName}
    (hname : names name.hostName = true) :
    Lockstep (mirroring names r region) (ScopeMirrored r region) (scope name) (scope name) a b := by
  unfold scope
  refine Lockstep.get_bind ?_
  cases name with
  | global =>
    simp only [h.global hname]
    cases hs : a.global with
    | none => exact Lockstep.throw h
    | some s => exact Lockstep.pure h ⟨rfl, h.global_mem hname hs⟩
  | handle handle =>
    simp only [h.handle hname]
    cases hs : a.handles.get? handle with
    | none => exact Lockstep.throw h
    | some s => exact Lockstep.pure h ⟨rfl, h.handle_mem hname hs⟩

/-- So is the value in a slot. -/
theorem slot_mirrors (h : Mirrors names r region a b) {name : String}
    (hname : names (.slot name) = true) :
    Lockstep (mirroring names r region) (ValueMirrored r region) (slot name) (slot name) a b := by
  unfold slot
  refine Lockstep.get_bind ?_
  rw [h.slot hname]
  cases hv : a.slots.get? name with
  | none => exact Lockstep.throw h
  | some v => exact Lockstep.pure h ⟨rfl, h.slot_isIn hname hv⟩

/-- So is a procedure in a slot. -/
theorem procedureIn_mirrors (h : Mirrors names r region a b) {name : String}
    (hname : names (.slot name) = true) :
    Lockstep (mirroring names r region)
      (fun session p q => q = p.rename r ∧ (Value.procedure p).IsIn region session.store)
      (procedureIn name) (procedureIn name) a b := by
  unfold procedureIn
  refine Lockstep.bind (slot_mirrors h hname) ?_
  rintro v _ a b h - ⟨rfl, hv⟩
  cases v with
  | procedure p => exact Lockstep.pure h ⟨rfl, hv⟩
  | number | boolean | builtin => exact Lockstep.throw h

/-- Actions in lockstep on the stores are in lockstep on the sessions. -/
theorem run_mirrors {α β : Type} {J : Store → α → β → Prop} {x : Action α} {y : Action β}
    (h : Mirrors names r region a b)
    (hxy : Lockstep (Store.correspondence r region) J x y a.store b.store) :
    Lockstep (mirroring names r region) (fun session => Outcome (J session.store))
      (run x) (run y) a b := by
  obtain ⟨hmirrors, hle, houtcome⟩ := h.run hxy
  exact Lockstep.modifyGet hmirrors hle houtcome

/-- A new scope is made in both sessions. -/
theorem newScope_mirrors (h : Mirrors names r region a b) {parent : Option ScopeId}
    (hparent : ∀ p ∈ parent, p ∈ region.scopes ∧ a.store.Has p) {bindings : Table Value}
    (hbindings : ∀ v ∈ bindings.values, v.procedure? = none) :
    Lockstep (mirroring names r region) (ScopeMirrored r region)
      (make (·.newScope parent bindings)) (make (·.newScope (parent.map r.scope) bindings))
      a b := by
  have hnext := h.store.freshScope 0
  have hnew := h.store.newScope hparent
    fun v hv => Value.isIn_of_procedure?_eq_none (hbindings v hv)
  rw [Table.map_eq_self fun v hv => Value.rename_of_procedure?_eq_none (hbindings v hv)] at hnew
  have hle := Store.extends_newScope hnext.1 parent bindings
  exact Lockstep.modifyGet (h.setStore hnew hle) ⟨rfl, rfl, hle⟩
    ⟨hnext.2.symm, hnext.1, a.store.has_newScope parent bindings⟩

/-- A new procedure is made in both sessions. -/
theorem newProcedure_mirrors (h : Mirrors names r region a b) {s : ScopeId}
    (hs : s ∈ region.scopes ∧ a.store.Has s) (name : String) (params : List String)
    (body : SExpr) :
    Lockstep (mirroring names r region)
      (fun session p q => q = p.rename r ∧ (Value.procedure p).IsIn region session.store)
      (make (·.newProcedure name params body s))
      (make (·.newProcedure name params body (r.scope s))) a b := by
  have hle := Store.extends_newProcedure region a.store name params body s
  exact Lockstep.modifyGet (h.setStore (h.store.newProcedure name params body s) hle)
    ⟨rfl, rfl, hle⟩
    ⟨h.store.newProcedure_rename name params body s,
      h.store.newProcedure_isIn name params body hs.1 hs.2⟩

/-- A value is made from the same description in both sessions. -/
theorem value_mirrors (h : Mirrors names r region a b) {source : ValueSource}
    (hsource : ∀ name ∈ source.names, names name = true) :
    Lockstep (mirroring names r region) (ValueMirrored r region) (value source) (value source)
      a b := by
  cases source with
  | number n => exact Lockstep.pure h ⟨rfl, Value.isIn_of_procedure?_eq_none rfl⟩
  | boolean x => exact Lockstep.pure h ⟨rfl, Value.isIn_of_procedure?_eq_none rfl⟩
  | builtin name =>
    rw [value]
    generalize Primitive.all.find? (·.name == name) = found
    cases found with
    | none => exact Lockstep.throw h
    | some p => exact Lockstep.pure h ⟨rfl, Value.isIn_of_procedure?_eq_none rfl⟩
  | slot name => exact slot_mirrors h (hsource _ (List.mem_singleton_self _))
  | procedure name params body scopeName =>
    have hmake {a b : Session} (h : Mirrors names r region a b) {s : ScopeId}
        (hs : s ∈ region.scopes ∧ a.store.Has s) :
        Lockstep (mirroring names r region) (ValueMirrored r region)
          (do return .procedure (← make (·.newProcedure name params body s)))
          (do return .procedure (← make (·.newProcedure name params body (r.scope s)))) a b := by
      refine Lockstep.bind (newProcedure_mirrors h hs name params body) ?_
      rintro p _ a b h - ⟨rfl, hp⟩
      exact Lockstep.pure h ⟨rfl, hp⟩
    unfold value
    cases scopeName with
    | some n =>
      refine Lockstep.bind (scope_mirrors h (hsource _ (List.mem_singleton_self _))) ?_
      rintro s _ a b h - ⟨rfl, hs⟩
      exact hmake h hs
    | none =>
      refine Lockstep.bind (newScope_mirrors h (by simp) fun v hv => absurd hv List.not_mem_nil) ?_
      rintro s _ a b h - ⟨rfl, hs⟩
      exact hmake h hs

/-! ### What the host keeps -/

/-- The host changes what it keeps, and answers. -/
theorem modify_mirrors {f g : Session → Session} (h : Mirrors names r region (f a) (g b))
    (hle : Within names region a (f a)) {x y : Answer} (hxy : AnswerMirrored r (f a) x y) :
    Lockstep (mirroring names r region) (AnswerMirrored r) (do modify f; return x : Host Answer)
      (do modify g; return y) a b := by
  refine Lockstep.bind (J := fun session _ _ => session = f a) (Lockstep.modify h hle rfl) ?_
  rintro _ _ _ b h - rfl
  exact Lockstep.pure h hxy

/-- Both sessions take a handle, and give the answer that goes with it. -/
theorem keepHandle_mirrors (h : Mirrors names r region a b) {name : String}
    (hname : names (.handle name) = true) {s : ScopeId}
    (hs : s ∈ region.scopes ∧ a.store.Has s) {answer : Answer}
    (hanswer : answer = answer.rename r) :
    Lockstep (mirroring names r region) (AnswerMirrored r)
      (do keepHandle name s; return answer)
      (do keepHandle name (r.scope s); return answer) a b := by
  have hle : Within names region a { a with handles := a.handles.insert name s } :=
    { Within.refl names region a with others := holdings_insertHandle hname }
  exact modify_mirrors (h.insertHandle hname hs) hle hanswer

/-- The slot that a step can name is one of the names. -/
theorem names_slot {slot : Option String}
    (h : ∀ name ∈ slot.toList.map HostName.slot, names name = true) :
    ∀ n ∈ slot, names (.slot n) = true :=
  fun _ hn => h _ (List.mem_map_of_mem (Option.mem_toList.2 hn))

/-- The answer to a request for a value. -/
theorem yield_mirrors (h : Mirrors names r region a b) {name : Option String}
    (hname : ∀ n ∈ name, names (.slot n) = true) {x y : Except Error Value}
    (hxy : Outcome (Value.Transported r region a.store) x y) :
    Lockstep (mirroring names r region) (AnswerMirrored r) (yield name x) (yield name y) a b := by
  cases x with
  | error e =>
    cases y with
    | error e' =>
      obtain rfl : e = e' := hxy
      exact Lockstep.pure h rfl
    | ok v => exact hxy.elim
  | ok u =>
    cases y with
    | error e' => exact hxy.elim
    | ok v =>
      obtain ⟨rfl, hu⟩ := hxy
      unfold yield keepValue
      cases name with
      | none => exact Lockstep.pure h rfl
      | some n =>
        have hle : Within names region a { a with slots := a.slots.insert n u } :=
          { Within.refl names region a with others := holdings_insertSlot (hname n rfl) }
        exact modify_mirrors (h.insertSlot (hname n rfl) hu) hle rfl

/-! ### Steps -/

/-- Whether a step can take scopes out before it ends: it releases or clears. -/
def Reclaims : Step → Prop
  | .evaluate .. | .evaluateDefault .. | .clear _ | .release _ | .dropInterpreter => True
  | _ => False

/-- No user procedure is bound in a fresh global scope. -/
theorem procedure?_of_mem_globalBindings (v : Value) (hv : v ∈ globalBindings.values) :
    v.procedure? = none := by
  rcases Table.mem_values_insertAll hv with hv | hv
  · obtain ⟨p, -, rfl⟩ := List.mem_map.1 hv
    rfl
  · exact absurd hv List.not_mem_nil

/-- A new scope that the host keeps a handle to. -/
theorem keepNew_mirrors (h : Mirrors names r region a b) {name : String}
    (hname : names (.handle name) = true) {parent : Option ScopeId}
    (hparent : ∀ p ∈ parent, p ∈ region.scopes ∧ a.store.Has p) {bindings : Table Value}
    (hbindings : ∀ v ∈ bindings.values, v.procedure? = none) :
    Lockstep (mirroring names r region) (AnswerMirrored r)
      (do keepHandle name (← make (·.newScope parent bindings)); return Answer.done)
      (do keepHandle name (← make (·.newScope (parent.map r.scope) bindings)); return Answer.done)
      a b := by
  refine Lockstep.bind (newScope_mirrors h hparent hbindings) ?_
  rintro s _ a b h - ⟨rfl, hs⟩
  exact keepHandle_mirrors h hname hs rfl

/-- A question about a scope is answered alike. -/
theorem consult_mirrors (h : Mirrors names r region a b) {scopeName : ScopeName}
    (hscope : names scopeName.hostName = true) (answer : Store → ScopeId → Answer)
    (hanswer : ∀ {a b : Store} {s : ScopeId}, Store.Corresponds r region a b →
      s ∈ region.scopes → answer b (r.scope s) = (answer a s).rename r) :
    Lockstep (mirroring names r region) (AnswerMirrored r)
      (do
        let s ← scope scopeName
        return answer (← get).store s)
      (do
        let s ← scope scopeName
        return answer (← get).store s) a b := by
  refine Lockstep.bind (scope_mirrors h hscope) ?_
  rintro s _ a b h - ⟨rfl, hs, -⟩
  exact Lockstep.get_bind (Lockstep.pure h (hanswer h.store hs))

/-- A question about a value is answered alike. -/
theorem inquire_mirrors (h : Mirrors names r region a b) {source : ValueSource}
    (hsource : ∀ name ∈ source.names, names name = true) {answer : Value → Answer}
    (hanswer : ∀ v, answer (v.rename r) = (answer v).rename r) :
    Lockstep (mirroring names r region) (AnswerMirrored r) (do return answer (← value source))
      (do return answer (← value source)) a b := by
  refine Lockstep.bind (value_mirrors h hsource) ?_
  rintro v _ a b h - ⟨rfl, -⟩
  exact Lockstep.pure h (hanswer v)

/-- A value is bound, in one way or another. -/
theorem bind_mirrors (h : Mirrors names r region a b) {scopeName : ScopeName}
    (hscope : names scopeName.hostName = true) {source : ValueSource}
    (hsource : ∀ name ∈ source.names, names name = true)
    {put : ScopeId → Value → Action Unit}
    (hput : ∀ s a b u v, Store.Corresponds r region a b → s ∈ region.scopes →
      u.Transported r region a v →
      Lockstep (Store.correspondence r region) (fun _ _ _ => True) (put s u) (put (r.scope s) v)
        a b) :
    Lockstep (mirroring names r region) (AnswerMirrored r)
      (do
        let s ← scope scopeName
        let v ← value source
        return confirm (← run (put s v)))
      (do
        let s ← scope scopeName
        let v ← value source
        return confirm (← run (put s v))) a b := by
  refine Lockstep.bind (scope_mirrors h hscope) ?_
  rintro s _ a b h - ⟨rfl, hs, -⟩
  refine Lockstep.bind (value_mirrors h hsource) ?_
  rintro v _ a b h - hv
  refine Lockstep.bind (run_mirrors h (hput s _ _ v _ h.store hs hv)) ?_
  rintro x y a b h - houtcome
  cases x <;> cases y <;> first | exact houtcome.elim | skip
  · obtain rfl : _ = _ := houtcome
    exact Lockstep.pure h rfl
  · exact Lockstep.pure h rfl

/-- Whether a procedure exists may be answered differently; nothing else is different then. -/
theorem isAlive_mirrors (h : Mirrors names r region a b) {name : String}
    (hname : names (.watch name) = true) :
    Lockstep (mirroring names r region) (fun _ u v => (∃ x, u = .truth x) ∧ ∃ y, v = .truth y)
      (perform (.isAlive name)) (perform (.isAlive name)) a b := by
  refine Lockstep.get_bind ?_
  rw [h.watch hname]
  cases a.watches.get? name with
  | none => exact Lockstep.throw h
  | some id => exact Lockstep.get_bind (Lockstep.pure h ⟨⟨_, rfl⟩, _, rfl⟩)

/-- **A step that takes no scope out goes in lockstep**, if it mentions none but the names. -/
theorem perform_mirrors {step : Step} (hstep : ¬ Reclaims step)
    (halive : ∀ name, step ≠ .isAlive name) (hnames : ∀ name ∈ step.names, names name = true)
    (h : Mirrors names r region a b) :
    Lockstep (mirroring names r region) (AnswerMirrored r) (perform step) (perform step) a b := by
  cases step with
  | evaluate | evaluateDefault | clear | release | dropInterpreter => exact (hstep trivial).elim
  | isAlive name => exact (halive name rfl).elim
  | evaluateTree tree scopeName limit slotName =>
    obtain ⟨hscope, hslot⟩ := List.forall_mem_cons.1 hnames
    refine Lockstep.bind (scope_mirrors h hscope) ?_
    rintro s _ a b h - ⟨rfl, hs, ha⟩
    refine Lockstep.bind (run_mirrors h (eval_lockstep limit _ hs tree _ _ h.store ha)) ?_
    rintro x y a b h - hxy
    exact yield_mirrors h (names_slot hslot) hxy
  | special form operands scopeName depth slotName =>
    obtain ⟨hscope, hslot⟩ := List.forall_mem_cons.1 hnames
    refine Lockstep.bind (scope_mirrors h hscope) ?_
    rintro s _ a b h - ⟨rfl, hs, ha⟩
    refine Lockstep.bind
      (run_mirrors h (SpecialForm.runAt_lockstep form depth operands h.store hs ha)) ?_
    rintro x y a b h - hxy
    exact yield_mirrors h (names_slot hslot) hxy
  | read text =>
    refine Lockstep.get_bind ?_
    rw [h.config]
    cases StrictScheme.read a.config.comments text with
    | ok tree => exact Lockstep.pure h rfl
    | error fault => exact Lockstep.pure h rfl
  | config =>
    refine Lockstep.get_bind ?_
    rw [h.config]
    exact Lockstep.pure h rfl
  | listing scopeName all =>
    refine consult_mirrors h (hnames _ (List.mem_singleton_self _)) (fun store s =>
      .listing (store.listing s).length
        ((store.listing s).filter fun binding => all || !binding.isBuiltin)) fun h hs => ?_
    rw [h.listing hs]
    rfl
  | newScope name parentName =>
    obtain ⟨hname, hparent⟩ := List.forall_mem_cons.1 hnames
    refine Lockstep.bind (J := fun session p q => q = p.map r.scope ∧
      ∀ s ∈ p, s ∈ region.scopes ∧ session.store.Has s) ?_ ?_
    · cases parentName with
      | none => exact Lockstep.pure h ⟨rfl, nofun⟩
      | some parentName =>
        refine Lockstep.bind (scope_mirrors h (hparent _ (List.mem_singleton_self _))) ?_
        rintro s _ a b h - ⟨rfl, hs⟩
        exact Lockstep.pure h ⟨rfl, fun t ht => Option.some.inj ht ▸ hs⟩
    · rintro parent _ a b h - ⟨rfl, hparent⟩
      exact keepNew_mirrors h hname hparent fun v hv => absurd hv List.not_mem_nil
  | newGlobal name =>
    have hparent : ∀ p ∈ (none : Option ScopeId), p ∈ region.scopes ∧ a.store.Has p := nofun
    exact keepNew_mirrors h (hnames _ (List.mem_singleton_self _)) hparent
      procedure?_of_mem_globalBindings
  | keepScope name scopeName =>
    obtain ⟨hname, hscope⟩ := List.forall_mem_cons.1 hnames
    refine Lockstep.bind (scope_mirrors h (hscope _ (List.mem_singleton_self _))) ?_
    rintro s _ a b h - ⟨rfl, hs⟩
    exact keepHandle_mirrors h hname hs rfl
  | definingScope name slotName =>
    obtain ⟨hname, hslot⟩ := List.forall_mem_cons.1 hnames
    refine Lockstep.bind (procedureIn_mirrors h (hslot _ (List.mem_singleton_self _))) ?_
    rintro p _ a b h - ⟨rfl, hp⟩
    exact keepHandle_mirrors h hname ⟨(hp p rfl).1, (hp p rfl).2.1⟩ rfl
  | dropHandle name =>
    have hle : Within names region a { a with handles := a.handles.erase name } :=
      { Within.refl names region a with
        others := holdings_eraseHandle (hnames _ (List.mem_singleton_self _)) }
    exact modify_mirrors (h.eraseHandle name) hle rfl
  | parent scopeName name =>
    obtain ⟨hname, hscope⟩ := List.forall_mem_cons.1 hnames
    refine Lockstep.bind (scope_mirrors h (hscope _ (List.mem_singleton_self _))) ?_
    rintro s _ a b h - ⟨rfl, hs, -⟩
    refine Lockstep.get_bind ?_
    rw [h.store.parent? hs]
    cases hp : (a.store.scope? s).bind Scope.parent? with
    | none => exact Lockstep.pure h rfl
    | some p => exact keepHandle_mirrors h hname (h.store.parent?_mem hs hp) rfl
  | get scopeName name slotName =>
    obtain ⟨hscope, hslot⟩ := List.forall_mem_cons.1 hnames
    refine Lockstep.bind (scope_mirrors h hscope) ?_
    rintro s _ a b h - ⟨rfl, hs, -⟩
    refine Lockstep.get_bind ?_
    rw [h.store.lookup hs name]
    cases hv : a.store.lookup s name with
    | none => exact Lockstep.pure h rfl
    | some v => exact yield_mirrors h (names_slot hslot) ⟨rfl, h.store.isIn_of_lookup hs hv⟩
  | define scopeName name source =>
    obtain ⟨hscope, hsource⟩ := List.forall_mem_cons.1 hnames
    exact bind_mirrors h hscope hsource fun s a b u v h hs huv =>
      Action.define_lockstep h hs name huv
  | assign scopeName name source =>
    obtain ⟨hscope, hsource⟩ := List.forall_mem_cons.1 hnames
    exact bind_mirrors h hscope hsource fun s a b u v h hs huv =>
      Action.assign_lockstep h hs name huv
  | bindsLocally scopeName name =>
    refine consult_mirrors h (hnames _ (List.mem_singleton_self _))
      (fun store s => .truth (store.bindsLocally s name)) fun h hs => ?_
    rw [h.bindsLocally hs name]
    rfl
  | isRoot scopeName =>
    refine consult_mirrors h (hnames _ (List.mem_singleton_self _))
      (fun store s => .truth ((store.scope? s).bind Scope.parent?).isNone) fun h hs => ?_
    rw [h.parent? hs, Option.isNone_map]
    rfl
  | sameScope x y =>
    obtain ⟨hx, hy⟩ := List.forall_mem_cons.1 hnames
    refine Lockstep.bind (scope_mirrors h hx) ?_
    rintro s _ a b h - ⟨rfl, hs, -⟩
    refine Lockstep.bind (scope_mirrors h (hy _ (List.mem_singleton_self _))) ?_
    rintro t _ a b h - ⟨rfl, ht, -⟩
    refine Lockstep.pure h ?_
    have hsame : (r.scope s == r.scope t) = (s == t) := by
      rw [Bool.eq_iff_iff, beq_iff_eq, beq_iff_eq, h.store.injScope.eq_iff hs ht]
    exact congrArg Answer.truth hsame
  | register scopeName builtin =>
    refine Lockstep.bind (scope_mirrors h (hnames _ (List.mem_singleton_self _))) ?_
    rintro s _ a b h - ⟨rfl, hs, -⟩
    have hle : a.store.Extends region (a.store.bind s builtin.name (.builtin builtin)) :=
      Store.extends_bind hs ..
    have hbuiltin : (Value.builtin builtin).IsIn region a.store :=
      Value.isIn_of_procedure?_eq_none rfl
    exact modify_mirrors (h.setStore (h.store.bind hs builtin.name hbuiltin) hle)
      ⟨rfl, rfl, hle⟩ rfl
  | keep source slotName =>
    obtain ⟨hslot, hsource⟩ := List.forall_mem_cons.1 hnames
    refine Lockstep.bind (value_mirrors h hsource) ?_
    rintro v _ a b h - hv
    exact yield_mirrors h (fun n hn => Option.some.inj hn ▸ hslot) hv
  | dropSlot slotName =>
    have hle : Within names region a { a with slots := a.slots.erase slotName } :=
      { Within.refl names region a with
        others := holdings_eraseSlot (hnames _ (List.mem_singleton_self _)) }
    exact modify_mirrors (h.eraseSlot slotName) hle rfl
  | watch slotName name =>
    obtain ⟨hslot, hname⟩ := List.forall_mem_cons.1 hnames
    replace hname := hname _ (List.mem_singleton_self _)
    refine Lockstep.bind (procedureIn_mirrors h hslot) ?_
    rintro p _ a b h - ⟨rfl, hp⟩
    have hle : Within names region a { a with watches := a.watches.insert name p.id } :=
      { Within.refl names region a with others := holdings_insertWatch hname }
    exact modify_mirrors (h.insertWatch hname (hp p rfl).2.2) hle rfl
  | equal x y =>
    obtain ⟨hx, hy⟩ := List.forall_mem_append.1 hnames
    refine Lockstep.bind (value_mirrors h hx) ?_
    rintro u _ a b h - ⟨rfl, hu⟩
    refine Lockstep.bind (value_mirrors h hy) ?_
    rintro v _ a' b' h hle ⟨rfl, hv⟩
    refine Lockstep.pure h ?_
    have hargs : ∀ w ∈ [u, v], w.IsIn region a'.store := by
      simpa using ⟨hle.store.isIn hu, hv⟩
    exact congrArg Answer.truth
      (sameEquality_of_isIn h.store hargs u (by simp) v (by simp))
  | convert source kind =>
    refine Lockstep.bind (value_mirrors h hnames) ?_
    rintro v _ a b h - ⟨rfl, -⟩
    cases kind with
    | number =>
      simp only [Value.toNumber, Value.asNumber_rename]
      cases v.asNumber "expected number" <;> exact Lockstep.pure h rfl
    | boolean =>
      simp only [Value.toBoolean, Value.asBoolean_rename]
      cases v.asBoolean "expected boolean" <;> exact Lockstep.pure h rfl
  | procedureName source => exact inquire_mirrors h hnames fun v => by cases v <;> rfl
  | inspectScope scopeName =>
    refine consult_mirrors h (hnames _ (List.mem_singleton_self _))
      (fun store s => .inspection (store.inspect s)) fun h hs => ?_
    rw [h.inspect hs]
    rfl
  | inspectValue source => exact inquire_mirrors h hnames fun v => by cases v <;> rfl

end Host
end StrictScheme
