import Fisics.Syntax.ControlFlowReading
import Mathlib.Logic.Relation

/-!
# Soundness of the control-flow facts

Along a run without hidden steps control stays at statements that are alive, and
ends only statements that are read as falling through.
-/

namespace Fisics

open Stmt (at? children isList isLoop isSwitch)

variable {targets : GotoTargetSet} {body : Stmt}

-- Statements and where they stand

theorem standingAt_of_at? (h : body.at? p = some s) : ∃ v, standingAt body p = some v ∧ v.stmt = s := by
  have hmap := @Standing.at?_stmt (collectGotoTargets [] body) ⟨body, .read, true⟩ p
  exact Option.map_eq_some_iff.mp (hmap.trans h)

theorem standingAt_stmt (h : standingAt body p = some v) : body.at? p = some v.stmt := by
  have hmap := @Standing.at?_stmt (collectGotoTargets [] body) ⟨body, .read, true⟩ p
  exact hmap.symm.trans (congrArg (Option.map Standing.stmt) h)

theorem standingAt_append (p q : StmtPath) :
    standingAt body (p ++ q) = (standingAt body p).bind (·.at? (collectGotoTargets [] body) q) :=
  Standing.at?_append _ p q

theorem standingAt_child (h : standingAt body p = some v) (i : Nat) :
    standingAt body (p ++ [i]) = v.child (collectGotoTargets [] body) i := by
  simp [standingAt_append, h, Standing.at?]

theorem standingAt_parent (h : standingAt body (p ++ [i]) = some w) :
    ∃ v, standingAt body p = some v ∧ v.child (collectGotoTargets [] body) i = some w := by
  rw [standingAt_append] at h
  obtain ⟨v, hv, hw⟩ := Option.bind_eq_some_iff.mp h
  exact ⟨v, hv, by simpa [Standing.at?] using hw⟩

theorem alive_of_prefix (h : standingAt body p = some w) (halive : w.alive = true) (hq : q <+: p) :
    ∃ v, standingAt body q = some v ∧ v.alive = true := by
  obtain ⟨r, rfl⟩ := hq
  rw [standingAt_append] at h
  obtain ⟨v, hv, hw⟩ := Option.bind_eq_some_iff.mp h
  exact ⟨v, hv, Standing.alive_of_at? hw halive⟩

-- Lists

theorem reachedAt_succ (ss : List Stmt) (reached : Bool) (hi : reachedAt targets ss reached i = true)
    (hs : ss[i]? = some s) (hfalls : exitOf targets s = .falls) (hnext : i + 1 < ss.length) :
    reachedAt targets ss reached (i + 1) = true := by
  induction ss generalizing reached i with
  | nil => cases hs
  | cons x ss ih =>
    cases i with
    | zero => ?_
    | succ i => exact ih _ hi hs (Nat.lt_of_succ_lt_succ hnext)
    obtain rfl := Option.some.inj hs
    obtain ⟨y, ss, rfl⟩ := List.exists_cons_of_ne_nil (List.ne_nil_of_length_pos (Nat.lt_of_succ_lt_succ hnext))
    have hx : (reached || revives targets x) = true := hi
    simp [reachedAt, hx, hfalls]

theorem exitOfList_falls (ss : List Stmt) (reached sawReturn : Bool)
    (hi : reachedAt targets ss reached i = true)
    (hs : ss[i]? = some s) (hfalls : exitOf targets s = .falls) (hlast : i + 1 = ss.length) :
    exitOfList targets ss reached sawReturn = .falls := by
  induction ss generalizing reached sawReturn i with
  | nil => cases hs
  | cons x ss ih =>
    cases i with
    | zero =>
      obtain rfl := Option.some.inj hs
      obtain rfl : ss = [] := List.length_eq_zero_iff.mp (Nat.succ.inj hlast).symm
      have hx : (reached || revives targets x) = true := hi
      rw [exitOfList_cons, if_pos hx]
      simp [exitOfList, hfalls]
    | succ i =>
      have hrest : reachedAt targets ss ((reached || revives targets x) && exitOf targets x = .falls) i =
          true := hi
      rw [exitOfList_cons]
      by_cases hx : (reached || revives targets x) = true
      · rw [hx, Bool.true_and] at hrest
        rw [if_pos hx]
        exact ih _ _ hrest hs (Nat.succ.inj hlast)
      · rw [Bool.eq_false_iff.mpr hx, Bool.false_and] at hrest
        rw [if_neg hx]
        exact ih _ _ hrest hs (Nat.succ.inj hlast)

theorem exitOf_list (h : s.isList = true) : exitOf targets s = exitOfList targets s.children true false := by
  cases s with
  | block line statements => rfl
  | caseStmt line isDefault caseBody => rfl
  | _ => cases h

-- Switches and loops

theorem falls_mem_chainExits (exits : List Exit) : .falls ∈ chainExits (exits ++ [.falls]) := by
  induction exits with
  | nil => exact List.mem_cons_self
  | cons e es ih => exact List.mem_cons_of_mem _ ih

theorem allCaseExits_append (ss ss' : List Stmt) :
    allCaseExits targets (ss ++ ss') = allCaseExits targets ss ++ allCaseExits targets ss' := by
  induction ss with
  | nil => rfl
  | cons s ss ih => simp [allCaseExits, ih]

theorem switchExit_eq (cases : List (Bool × Exit)) (h : switchExit cases ≠ .returns) :
    switchExit cases = .falls := by
  unfold switchExit at h ⊢
  split
  · next hclosed => exact absurd (if_pos hclosed) h
  · rfl

theorem switchExit_of_last (hcase : row.isCase = true) (hinner : allCaseExits targets row.children = [])
    (hfalls : exitOf targets row = .falls) (rows : List Stmt) :
    switchExit (allCaseExits targets (rows ++ [row])) = .falls := by
  cases row with
  | caseStmt line isDefault caseBody =>
    have hmem := falls_mem_chainExits ((allCaseExits targets rows).map Prod.snd)
    have hlast : allCaseExits targets [.caseStmt line isDefault caseBody] = [(isDefault, .falls)] := by
      have hbody : exitOfList targets caseBody true false = .falls := hfalls
      have hnone : allCaseExits targets caseBody = [] := hinner
      simp [allCaseExits, caseExits, hbody, hnone]
    refine switchExit_eq _ fun hreturns => ?_
    unfold switchExit at hreturns
    split at hreturns
    · next hclosed =>
      have hall := List.all_eq_true.mp (Bool.and_eq_true_iff.mp hclosed).2
      rw [allCaseExits_append, hlast, List.map_append] at hall
      exact absurd (hall _ hmem) (by decide)
    · cases hreturns
  | _ => cases hcase

/-- No statement of this kind on the way from a statement down to `path`. -/
def Clear (kind : Stmt → Bool) : Stmt → StmtPath → Prop
  | _, [] => True
  | s, i :: path => kind s = false ∧ ∀ c, s.children[i]? = some c → Clear kind c path

theorem anyMayExit_of_mem (hmem : s ∈ ss) (h : conditionlessLoopMayExit s l k = true) :
    anyMayExit ss l k = true := by
  induction ss with
  | nil => cases hmem
  | cons x ss ih =>
    rw [anyMayExit, Bool.or_eq_true]
    rcases List.mem_cons.mp hmem with rfl | hmem
    · exact .inl h
    · exact .inr (ih hmem)

theorem mayExit_of_break (s : Stmt) (hbreak : s.at? path = some (.breakStmt line))
    (hclear : Clear (fun s => s.isLoop || s.isSwitch) s path) : conditionlessLoopMayExit s 0 0 = true := by
  induction path generalizing s with
  | nil =>
    cases hbreak
    rfl
  | cons i path ih =>
    obtain ⟨hkind, hchild⟩ := hclear
    obtain ⟨c, hc, hbreak⟩ := Option.bind_eq_some_iff.mp hbreak
    have hexit := ih c hbreak (hchild c hc)
    have hmem := List.mem_of_getElem? hc
    cases s with
    | block _ statements => exact anyMayExit_of_mem hmem hexit
    | caseStmt _ _ caseBody => exact anyMayExit_of_mem hmem hexit
    | ifStmt _ thenBranch =>
      obtain rfl := List.mem_singleton.mp hmem
      exact hexit
    | label _ _ statement =>
      obtain rfl := List.mem_singleton.mp hmem
      exact hexit
    | ifElseStmt _ thenBranch elseBranch =>
      rw [conditionlessLoopMayExit, Bool.or_eq_true]
      rcases List.mem_cons.mp hmem with rfl | hmem
      · exact .inl hexit
      · obtain rfl := List.mem_singleton.mp hmem
        exact .inr hexit
    | whileLoop => cases hkind
    | forLoop => cases hkind
    | switchStmt => cases hkind
    | _ => cases hmem

mutual
theorem default_of_caseExits : (s : Stmt) → (h : (true, e) ∈ caseExits targets s) →
    ∃ path line caseBody, s.at? path = some (.caseStmt line true caseBody) ∧ Clear isSwitch s path
  | .caseStmt line isDefault caseBody, h => by
    rcases List.mem_cons.mp h with h | h
    · obtain rfl : true = isDefault := congrArg Prod.fst h
      exact ⟨[], line, caseBody, rfl, trivial⟩
    · obtain ⟨i, c, hc, path, line', body', hat, hclear⟩ := default_of_allCaseExits caseBody h
      exact ⟨i :: path, line', body', by simp [at?, children, hc, hat], rfl,
        fun c' hc' => Option.some.inj (hc.symm.trans hc') ▸ hclear⟩
  | .block line statements, h => by
    obtain ⟨i, c, hc, path, line', body', hat, hclear⟩ := default_of_allCaseExits statements h
    exact ⟨i :: path, line', body', by simp [at?, children, hc, hat], rfl,
      fun c' hc' => Option.some.inj (hc.symm.trans hc') ▸ hclear⟩
  | .ifStmt line thenBranch, h => by
    obtain ⟨path, line', body', hat, hclear⟩ := default_of_caseExits thenBranch h
    exact ⟨0 :: path, line', body', hat, rfl, fun c hc => Option.some.inj hc ▸ hclear⟩
  | .ifElseStmt line thenBranch elseBranch, h => by
    rcases List.mem_append.mp h with h | h
    · obtain ⟨path, line', body', hat, hclear⟩ := default_of_caseExits thenBranch h
      exact ⟨0 :: path, line', body', hat, rfl, fun c hc => Option.some.inj hc ▸ hclear⟩
    · obtain ⟨path, line', body', hat, hclear⟩ := default_of_caseExits elseBranch h
      exact ⟨1 :: path, line', body', hat, rfl, fun c hc => Option.some.inj hc ▸ hclear⟩
  | .whileLoop _ _ loopBody, h | .forLoop _ _ _ loopBody, h | .label _ _ loopBody, h => by
    obtain ⟨path, line', body', hat, hclear⟩ := default_of_caseExits loopBody h
    exact ⟨0 :: path, line', body', hat, rfl, fun c hc => Option.some.inj hc ▸ hclear⟩
  | .switchStmt _ _, h | .returnStmt _, h | .breakStmt _, h | .continueStmt _, h
  | .gotoStmt _ _, h | .other _, h => absurd h List.not_mem_nil
theorem default_of_allCaseExits : (ss : List Stmt) → (h : (true, e) ∈ allCaseExits targets ss) →
    ∃ (i : Nat) (c : Stmt), ss[i]? = some c ∧ ∃ path line caseBody,
      c.at? path = some (.caseStmt line true caseBody) ∧ Clear isSwitch c path
  | s :: ss, h => by
    rcases List.mem_append.mp h with h | h
    · exact ⟨0, s, rfl, default_of_caseExits s h⟩
    · obtain ⟨i, c, hc, hrest⟩ := default_of_allCaseExits ss h
      exact ⟨i + 1, c, hc, hrest⟩
end

theorem Stmt.at?_append (s : Stmt) (p q : StmtPath) : s.at? (p ++ q) = (s.at? p).bind (·.at? q) := by
  induction p generalizing s with
  | nil => rfl
  | cons i p ih =>
    simp only [List.cons_append, at?, Option.bind_assoc]
    congr 1
    funext c
    exact ih c

theorem clear_iff (kind : Stmt → Bool) (s : Stmt) (path : StmtPath) :
    Clear kind s path ↔ ∀ q, q <+: path → q ≠ path → ∀ t, s.at? q = some t → kind t = false := by
  induction path generalizing s with
  | nil => simp [Clear]
  | cons i path ih =>
    constructor
    · rintro ⟨hkind, hchild⟩ q hq hne t ht
      cases q with
      | nil =>
        cases ht
        exact hkind
      | cons j q =>
        obtain ⟨rfl, hrest⟩ := List.cons_prefix_cons.mp hq
        obtain ⟨c, hc, ht⟩ := Option.bind_eq_some_iff.mp ht
        exact (ih c).mp (hchild c hc) q hrest (fun h => hne (by rw [h])) t ht
    · intro h
      refine ⟨h [] (List.nil_prefix) (by simp) s rfl, fun c hc => (ih c).mpr fun q hq hne t ht => ?_⟩
      exact h (i :: q) (List.cons_prefix_cons.mpr ⟨rfl, hq⟩) (by simpa using hne) t
        (by simp [at?, hc, ht])

theorem Innermost.clear {inner : StmtPath} (h : Innermost body kind outer inner)
    (hs : body.at? outer = some s) :
    ∃ i path, inner = outer ++ i :: path ∧ ∀ c, s.children[i]? = some c → Clear kind c path := by
  obtain ⟨-, ⟨rest, rfl⟩, hne, hbetween⟩ := h
  cases rest with
  | nil => simp at hne
  | cons i path => ?_
  refine ⟨i, path, rfl, fun c hc => (clear_iff kind c path).mpr fun q hq hqne t ht => ?_⟩
  refine hbetween (outer ++ i :: q) (List.prefix_append _ _) ?_ (by simp) (by simpa using hqne) t ?_
  · exact (List.prefix_append_right_inj outer).mpr (List.cons_prefix_cons.mpr ⟨rfl, hq⟩)
  · simp [Stmt.at?_append, hs, at?, hc, ht]

theorem innermost_of_clear (hs : body.at? outer = some s) (hkind : kind s = true)
    (hc : s.children[i]? = some c) (hclear : Clear kind c path) :
      Innermost body kind outer (outer ++ i :: path) := by
  refine ⟨⟨s, hs, hkind⟩, List.prefix_append _ _, by simp, ?_⟩
  rintro between ⟨rest, rfl⟩ hinner hne hne' t ht
  cases rest with
  | nil => simp at hne
  | cons j rest =>
    obtain ⟨rfl, hrest⟩ := List.cons_prefix_cons.mp ((List.prefix_append_right_inj outer).mp hinner)
    refine (clear_iff kind c path).mp hclear rest hrest (by rintro rfl; exact hne' rfl) t ?_
    simpa [Stmt.at?_append, hs, at?, hc] using ht

-- One step

def Stands (body : Stmt) : Point → Prop
  | .enter p | .round p => ∃ v, standingAt body p = some v ∧ v.alive = true
  | .leave p => ∃ v, standingAt body p = some v ∧ v.alive = true ∧
    (v.reading = .read → exitOf (collectGotoTargets [] body) v.stmt = .falls)

theorem Stands.alive (h : Stands body point) : ∃ v, standingAt body point.path = some v ∧ v.alive = true := by
  cases point with
  | enter p => exact h
  | round p => exact h
  | leave p => exact h.imp fun v hv => ⟨hv.1, hv.2.1⟩

theorem Stands.at (h : Stands body point) (hs : body.at? point.path = some s) :
    ∃ v, standingAt body point.path = some v ∧ v.alive = true ∧ v.stmt = s := by
  obtain ⟨v, hv, halive⟩ := h.alive
  exact ⟨v, hv, halive, Option.some.inj ((standingAt_stmt hv).symm.trans hs)⟩

theorem Stands.leave_of_falls (h : Stands body (.enter p)) (hs : body.at? p = some s)
    (hfalls : exitOf (collectGotoTargets [] body) s = .falls) : Stands body (.leave p) := by
  obtain ⟨v, hv, halive, rfl⟩ := h.at hs
  exact ⟨v, hv, halive, fun _ => hfalls⟩

theorem stands_child (hv : standingAt body p = some v) (halive : v.alive = true)
    (hi : i < v.stmt.children.length)
    (hreached : v.reading = .read → v.stmt.isList = true →
      reachedAt (collectGotoTargets [] body) v.stmt.children true i = true) : Stands body
        (.enter (p ++ [i])) := by
  have hchild := standingAt_child hv i
  rw [Standing.child, List.getElem?_eq_getElem hi, Option.map_some] at hchild
  refine ⟨_, hchild, ?_⟩
  simp only [halive, Bool.true_and, Bool.or_eq_true]
  by_cases hread : v.reading = .read
  · by_cases hlist : v.stmt.isList = true
    · exact .inr (hreached hread hlist)
    · exact .inl (.inr (by simpa using hlist))
  · exact .inl (.inl (by simpa using hread))

theorem Stands.parent (h : Stands body (.leave (p ++ [i]))) (hs : body.at? p = some s) :
    ∃ v w : Standing, standingAt body p = some v ∧ v.alive = true ∧ v.stmt = s ∧ s.children[i]? = some w.stmt ∧
      w.reading = v.reading.into s w.stmt ∧
      (v.reading = .read → s.isList = true → reachedAt (collectGotoTargets [] body) s.children true i = true) ∧
      (w.reading = .read → exitOf (collectGotoTargets [] body) w.stmt = .falls) := by
  obtain ⟨w, hw, halive, hfalls⟩ := h
  obtain ⟨v, hv, hchild⟩ := standingAt_parent hw
  have hvs : v.stmt = s := Option.some.inj ((standingAt_stmt hv).symm.trans hs)
  subst hvs
  refine ⟨v, w, hv, Standing.alive_of_child hchild halive, rfl, ?_⟩
  simp only [Standing.child, Option.map_eq_some_iff] at hchild
  obtain ⟨c, hc, rfl⟩ := hchild
  refine ⟨hc, rfl, fun hread hlist => ?_, hfalls⟩
  simpa [hread, hlist] using (Bool.and_eq_true_iff.mp halive).2

theorem into_of_not_switch (reading : Reading) (hread : reading = .read) (hs : s.isSwitch = false) (c : Stmt) :
    reading.into s c = .read := by
  simp [Reading.into, hread, hs]

theorem isSwitch_of_isList {s : Stmt} (h : s.isList = true) : s.isSwitch = false := by
  cases s with
  | switchStmt line caseList => cases h
  | _ => rfl

theorem exitOf_branching {i : Nat} (hbranch : s.isBranching = true) (hc : s.children[i]? = some c)
    (hfalls : exitOf targets c = .falls) : exitOf targets s = .falls := by
  have hmem := List.mem_of_getElem? hc
  cases s with
  | ifStmt line thenBranch => rfl
  | label line labelName statement =>
    obtain rfl := List.mem_singleton.mp hmem
    exact hfalls
  | ifElseStmt line thenBranch elseBranch =>
    rw [exitOf]
    rcases List.mem_cons.mp hmem with rfl | hmem
    · rw [hfalls]
      cases exitOf targets elseBranch <;> rfl
    · obtain rfl := List.mem_singleton.mp hmem
      rw [hfalls]
      cases exitOf targets thenBranch <;> rfl
  | _ => cases hbranch

theorem stands_of_last_row (hvisible : ¬Hidden body (.leave (p ++ [i])) (.leave p))
    (h : Stands body (.leave (p ++ [i]))) (hs : body.at? p = some s) (hswitch : s.isSwitch = true)
    (hi : i + 1 = s.children.length) : Stands body (.leave p) := by
  obtain ⟨v, w, hv, halive, rfl, hw, hreading, -, hfalls⟩ := h.parent hs
  refine ⟨v, hv, halive, fun hread => ?_⟩
  cases hstmt : v.stmt with
  | switchStmt line caseList =>
    refine switchExit_eq _ fun hreturns => ?_
    have hrow : body.at? (p ++ [i]) = some w.stmt := by simp [Stmt.at?_append, hs, at?, hw]
    by_cases hlast : w.stmt.isCase = true ∧ allCaseExits (collectGotoTargets [] body) w.stmt.children = []
    · -- the last case is the last of the chain, and it falls through
      have hwread : w.reading = .read := by simp [hreading, Reading.into, hread, hlast.1]
      have hget : caseList.getLast? = some w.stmt := by
        rw [hstmt] at hw hi
        rw [List.getLast?_eq_getElem?, show caseList.length - 1 = i from by
          rw [show caseList.length = i + 1 from hi.symm, Nat.add_sub_cancel]]
        exact hw
      have hopen := switchExit_of_last hlast.1 hlast.2 (hfalls hwread) caseList.dropLast
      rw [List.dropLast_append_getLast? _ hget] at hopen
      exact absurd (hopen.symm.trans hreturns) (by decide)
    · refine hvisible (.endSwitch hv hread hstmt (by rw [hstmt]; exact hreturns) hrow ?_)
      by_cases hcase : w.stmt.isCase = true
      · exact .inr fun hnone => hlast ⟨hcase, hnone⟩
      · exact .inl (by simpa using hcase)
  | _ => simp [hstmt, isSwitch] at hswitch

theorem exitOf_no_default (hs : body.at? p = some s) (hswitch : s.isSwitch = true)
    (hnone : ∀ q line caseBody, Innermost body isSwitch p q →
      body.at? q ≠ some (.caseStmt line true caseBody)) :
    exitOf (collectGotoTargets [] body) s = .falls := by
  cases s with
  | switchStmt line caseList =>
    refine switchExit_eq _ fun hreturns => ?_
    unfold switchExit at hreturns
    split at hreturns
    · next hclosed =>
      obtain ⟨⟨isDefault, e⟩, hmem, rfl⟩ := List.any_eq_true.mp (Bool.and_eq_true_iff.mp hclosed).1
      obtain ⟨i, c, hc, path, line', caseBody, hat, hclear⟩ := default_of_allCaseExits caseList hmem
      refine hnone (p ++ i :: path) line' caseBody (innermost_of_clear hs rfl hc hclear) ?_
      simp [Stmt.at?_append, hs, at?, children, hc, hat]
    · cases hreturns
  | _ => cases hswitch

theorem stands_of_break (hvisible : ¬Hidden body (.enter p) (.leave q)) (h : Stands body (.enter p))
    (hs : body.at? p = some (.breakStmt line))
    (hin : Innermost body (fun s => s.isLoop || s.isSwitch) q p) : Stands body (.leave q) := by
  obtain ⟨w, hw, halive⟩ := h
  obtain ⟨v, hv, halive⟩ := alive_of_prefix hw halive hin.2.1
  have hat := standingAt_stmt hv
  obtain ⟨i, path, rfl, hclear⟩ := hin.clear hat
  refine ⟨v, hv, halive, fun hread => ?_⟩
  obtain ⟨⟨s, hs', hkind⟩, -⟩ := hin
  obtain rfl := Option.some.inj (hs'.symm.trans hat)
  cases hstmt : v.stmt with
  | whileLoop line isDoWhile loopBody => rfl
  | forLoop line hasCondition hasIncrement loopBody =>
    refine if_neg fun hclosed => ?_
    simp only [Bool.and_eq_true, Bool.not_eq_true', Bool.or_eq_true, decide_eq_true_eq] at hclosed
    obtain ⟨⟨rfl, rfl⟩, hreturns | hstays⟩ := hclosed
    · exact hvisible (.breakLoop hs hv hread hstmt hreturns)
    · rw [Stmt.at?_append, hat, Option.bind_some] at hs
      obtain ⟨c, hc, hbreak⟩ := Option.bind_eq_some_iff.mp hs
      have hexit := mayExit_of_break c hbreak (hclear c hc)
      rw [hstmt] at hc
      obtain rfl := List.mem_singleton.mp (List.mem_of_getElem? hc)
      rw [hexit] at hstays
      cases hstays
  | switchStmt line caseList =>
    refine switchExit_eq _ fun hreturns => hvisible (.breakSwitch hs hv hread hstmt ?_)
    rw [hstmt]
    exact hreturns
  | _ => simp [hstmt, isLoop, isSwitch] at hkind

theorem step_stands (hstep : Step body a b) (hvisible : ¬Hidden body a b) (h : Stands body a) :
    Stands body b := by
  cases hstep with
  | pass hs | skipThen hs => exact h.leave_of_falls hs rfl
  | @emptyList p s hs hlist hempty =>
    refine h.leave_of_falls hs ?_
    rw [exitOf_list hlist, hempty]
    rfl
  | @firstOf p s hs hlist hne =>
    obtain ⟨v, hv, halive, rfl⟩ := h.at hs
    refine stands_child hv halive (List.length_pos_iff.mpr hne) fun _ _ => ?_
    obtain ⟨c, cs, hcs⟩ := List.exists_cons_of_ne_nil hne
    simp [hcs, reachedAt]
  | @nextOf p s i hs hkind hi =>
    obtain ⟨v, w, hv, halive, rfl, hw, hreading, hreached, hfalls⟩ := h.parent hs
    refine stands_child hv halive hi fun hread hlist => ?_
    have hwread := hreading.trans (into_of_not_switch _ hread (isSwitch_of_isList hlist) w.stmt)
    exact reachedAt_succ _ true (hreached hread hlist) hw (hfalls hwread) hi
  | @lastOf p s i hs hkind hi =>
    rcases hkind with hlist | hswitch
    · obtain ⟨v, w, hv, halive, rfl, hw, hreading, hreached, hfalls⟩ := h.parent hs
      refine ⟨v, hv, halive, fun hread => ?_⟩
      have hwread := hreading.trans (into_of_not_switch _ hread (isSwitch_of_isList hlist) w.stmt)
      rw [exitOf_list hlist]
      exact exitOfList_falls _ true false (hreached hread hlist) hw (hfalls hwread) hi
    · exact stands_of_last_row hvisible h hs hswitch hi
  | @choose p s i hs hbranch hi =>
    obtain ⟨v, hv, halive, rfl⟩ := h.at hs
    refine stands_child hv halive hi fun _ hlist => ?_
    cases hstmt : v.stmt <;> simp_all [isList, Stmt.isBranching]
  | @join p s i hs hbranch =>
    obtain ⟨v, w, hv, halive, rfl, hw, hreading, -, hfalls⟩ := h.parent hs
    refine ⟨v, hv, halive, fun hread => exitOf_branching hbranch hw (hfalls (hreading.trans ?_))⟩
    exact into_of_not_switch _ hread (by cases hstmt : v.stmt <;> simp_all [Stmt.isBranching, isSwitch]) _
  | test hs hfirst => exact h
  | @runFirst p line loopBody hs =>
    obtain ⟨v, hv, halive, hstmt⟩ := h.at hs
    exact stands_child hv halive (by simp [hstmt, children]) fun _ hlist => by simp [hstmt, isList] at hlist
  | @roundEnd p s hs hloop =>
    obtain ⟨v, w, hv, halive, -⟩ := h.parent hs
    exact ⟨v, hv, halive⟩
  | @again p s hs hloop =>
    obtain ⟨v, hv, halive, rfl⟩ := h.at hs
    refine stands_child hv halive ?_ fun _ hlist => ?_
    · cases hstmt : v.stmt <;> simp_all [isLoop, children]
    · cases hstmt : v.stmt <;> simp_all [isList, isLoop]
  | @done p s hs htest =>
    obtain ⟨v, hv, halive, rfl⟩ := h.at hs
    refine ⟨v, hv, halive, fun _ => ?_⟩
    cases hstmt : v.stmt <;> simp_all [Stmt.hasTest, exitOf]
  | @dispatch p q s hin hs hcase =>
    obtain ⟨v, hv, -⟩ := standingAt_of_at? hs
    obtain ⟨switch, hat, hswitch⟩ := hin.1
    refine ⟨v, hv, ?_⟩
    by_contra hdead
    exact hvisible (.intoDead hat (.inl hswitch) hv (by simpa using hdead))
  | @noMatch p s hs hswitch hnone => exact h.leave_of_falls hs (exitOf_no_default hs hswitch hnone)
  | @breakTo p line q hs hin => exact stands_of_break hvisible h hs hin
  | @continueTo p line q hs hin =>
    obtain ⟨v, hv, halive⟩ := h
    exact alive_of_prefix hv halive hin.2.1
  | @goto p line name q line' statement hs hq =>
    obtain ⟨v, hv, -⟩ := standingAt_of_at? hq
    refine ⟨v, hv, ?_⟩
    by_contra hdead
    exact hvisible (.intoDead hs (.inr ⟨line, name, rfl⟩) hv (by simpa using hdead))

-- Runs

/-- The facts of one function hold at a point its runs reach: no statement ends there
whose check says it stops, and none is entered that is reported unreachable. An
accepted function that returns a value does not end there. -/
structure FactsHold (returnsVoid : Bool) (body : Stmt) (point : Point) : Prop where
  ends : ∀ p, point = .leave p →
    ∀ flow, (p, .checked flow) ∈ (traverseFunction returnsVoid body).body.events → flow.stops = false
  entered : ∀ p line, (p, .unreachable line) ∈ (traverseFunction returnsVoid body).body.events →
    ¬p <+: point.path
  accepted : returnsVoid = false → (traverseFunction returnsVoid body).controlReachesEnd = false →
    point ≠ .leave []

theorem runs_stand (hrun : Relation.ReflTransGen (fun a b => Step body a b ∧ ¬Hidden body a b)
    (.enter []) point) :
    Stands body point := by
  induction hrun with
  | refl => exact ⟨⟨body, .read, true⟩, rfl, rfl⟩
  | tail _ hstep ih => exact step_stands hstep.1 hstep.2 ih

/-- In every run without hidden steps the control-flow facts hold at every point. -/
theorem controlFlow_sound (returnsVoid : Bool) (body : Stmt) (point : Point)
    (hrun : Relation.ReflTransGen (fun a b => Step body a b ∧ ¬Hidden body a b) (.enter []) point) :
    FactsHold returnsVoid body point := by
  have hstands := runs_stand hrun
  have hfits := checkStatement_fits ⟨true, false, collectGotoTargets [] body⟩ rfl body
  have hflow := checkStatement_flow ⟨true, false, collectGotoTargets [] body⟩ rfl body
  constructor
  · rintro p rfl flow hmem
    obtain ⟨v, hv, halive, hfalls⟩ := hstands
    have hchecked : v.reading = .read ∧ flow = (exitOf (collectGotoTargets [] body) v.stmt).flow :=
      hfits _ hmem v hv halive
    rw [hchecked.2, hfalls hchecked.1]
    rfl
  · intro p line hmem hprefix
    obtain ⟨w, hw, halive⟩ := hstands.alive
    obtain ⟨v, hv, halive⟩ := alive_of_prefix hw halive hprefix
    have hdead : v.alive = false := hfits _ hmem v hv
    exact absurd (halive.symm.trans hdead) (by decide)
  · rintro rfl haccepted rfl
    obtain ⟨v, hv, -, hfalls⟩ := hstands
    cases hv
    have hstops : (checkStatement ⟨true, false, collectGotoTargets [] body⟩ body).flow.stops = true := by
      simpa [traverseFunction] using haccepted
    rw [hflow, hfalls rfl] at hstops
    cases hstops

theorem Hidden.source (h : Hidden body a b) : ∃ p s, body.at? p = some s ∧
    ((a = .enter p ∧
        (s.isSwitch = true ∨ (∃ line, s = .breakStmt line) ∨ ∃ line name, s = .gotoStmt line name)) ∨
      ∃ i, a = .leave (p ++ [i]) ∧ s.isSwitch = true) := by
  cases h with
  | @breakSwitch p line _ _ _ _ hp | @breakLoop p line _ _ _ _ hp =>
    exact ⟨p, _, hp, .inl ⟨rfl, .inr (.inl ⟨line, rfl⟩)⟩⟩
  | @endSwitch q v _ _ i _ hv _ hstmt =>
    exact ⟨q, v.stmt, standingAt_stmt hv, .inr ⟨i, rfl, by rw [hstmt]; rfl⟩⟩
  | @intoDead p s _ _ hp hs => exact ⟨p, s, hp, .inl ⟨rfl, hs.imp_right .inr⟩⟩

/-- `{ if (x) return 1; return 0; }` -/
def guardedReturn : Stmt := .block 1 [.ifStmt 1 (.returnStmt 1), .returnStmt 1]

theorem controlFlow_sound_guardedReturn : FactsHold false guardedReturn (.enter [1]) := by
  have hfirst : ¬Hidden guardedReturn (.enter []) (.enter [0]) := by
    intro h
    obtain ⟨p, s, hs, ⟨ha, hkind⟩ | ⟨i, ha, -⟩⟩ := h.source
    · cases ha
      cases hs
      simp [guardedReturn, Stmt.isSwitch] at hkind
    · cases ha
  have hskip : ¬Hidden guardedReturn (.enter [0]) (.leave [0]) := by
    intro h
    obtain ⟨p, s, hs, ⟨ha, hkind⟩ | ⟨i, ha, -⟩⟩ := h.source
    · cases ha
      cases hs
      simp [Stmt.isSwitch] at hkind
    · cases ha
  have hnext : ¬Hidden guardedReturn (.leave [0]) (.enter [1]) := by
    intro h
    obtain ⟨p, s, hs, ⟨ha, -⟩ | ⟨i, ha, hkind⟩⟩ := h.source
    · cases ha
    · obtain rfl : p = [] := by
        have hlen := congrArg (fun point : Point => point.path.length) ha
        simpa [Point.path] using hlen
      cases hs
      cases hkind
  exact controlFlow_sound false guardedReturn _
    (((Relation.ReflTransGen.refl.tail ⟨Step.firstOf (p := []) rfl rfl (by decide), hfirst⟩).tail
      ⟨Step.skipThen (p := [0]) rfl, hskip⟩).tail
        ⟨Step.nextOf (p := []) (i := 0) rfl (.inl rfl) (by decide), hnext⟩)

/-- `{ switch (x) { default: if (x) break; return 1; } }` -/
def breakBesideReturn : Stmt :=
  .block 1 [.switchStmt 1 [.caseStmt 1 true [.ifStmt 1 (.breakStmt 1), .returnStmt 1]]]

theorem controlFlow_not_sound :
    ¬∀ returnsVoid body point, Relation.ReflTransGen (Step body) (.enter []) point →
      FactsHold returnsVoid body point := by
  intro h
  have hswitch : Innermost breakBesideReturn Stmt.isSwitch [0] [0, 0] :=
    innermost_of_clear (i := 0) rfl rfl rfl trivial
  have hbreak : Innermost breakBesideReturn (fun s => s.isLoop || s.isSwitch) [0] [0, 0, 0, 0] :=
    innermost_of_clear (i := 0) rfl rfl rfl ⟨rfl, fun c hc => Option.some.inj hc ▸ ⟨rfl, fun _ _ => trivial⟩⟩
  have hrun : Relation.ReflTransGen (Step breakBesideReturn) (.enter []) (.leave []) :=
    (((((Relation.ReflTransGen.single (Step.firstOf (p := []) rfl rfl (by decide))).tail
      (Step.dispatch hswitch rfl rfl)).tail
      (Step.firstOf (p := [0, 0]) rfl rfl (by decide))).tail
      (Step.choose (p := [0, 0, 0]) (i := 0) rfl rfl (by decide))).tail
      (Step.breakTo rfl hbreak)).tail
      (Step.lastOf (p := []) (i := 0) rfl (.inl rfl) rfl)
  exact (h false breakBesideReturn _ hrun).accepted rfl rfl rfl

end Fisics
