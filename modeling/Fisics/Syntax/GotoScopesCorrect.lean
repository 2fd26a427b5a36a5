import Fisics.Library.FallibleMap
import Fisics.Syntax.GotoScopes
import Mathlib.Data.List.Perm.Subperm

/-!
# Which jumps are judged rightly

The statements of a body form a tree of places. The blocks that are collected are the
blocks among the places, each with the numbers of its own declaring statements, and a
place is determined by its path. So the answer for a goto depends on the blocks around
its label alone: it is right for labels in the same block where the numbers tell, and for
deeper ones where the innermost block is the body of a loop with a declaring header.
-/

namespace Fisics.Goto

open FallibleMap
open List (append_assoc map_congr_left map_cons mem_append mem_cons mem_map mem_singleton prefix_rfl)
open Relation (ReflTransGen)

-- Places

structure Place where
  path : Path
  frames : List Frame
  index : Nat
  headed : Bool
  scope : List Declaration
  stmt : Stmt

def loopScope (path : Path) (scope : List Declaration) (initializer : Stmt) : List Declaration :=
  if introducesVariablyModifiedIdentifier initializer then scope ++ [.header path] else scope

inductive Descends : Place → Place → Prop
  | label : Descends ⟨path, frames, index, headed, scope, .label name s⟩
      ⟨path ++ [0], frames, index, false, scope, s⟩
  | item (h : statements[i]? = some s) :
    Descends ⟨path, frames, index, headed, scope, .block statements⟩
      ⟨path ++ [i], ⟨path, statements, headed⟩ :: frames, i, false,
        scope ++ declaredAll path 0 (statements.take i), s⟩
  | thenBranch : Descends ⟨path, frames, index, headed, scope, .ifStmt s s'⟩
      ⟨path ++ [0], frames, index, false, scope, s⟩
  | elseBranch : Descends ⟨path, frames, index, headed, scope, .ifStmt s s'⟩
      ⟨path ++ [1], frames, index, false, scope, s'⟩
  | forBody : Descends ⟨path, frames, index, headed, scope, .forLoop initializer s⟩
      ⟨path ++ [1], frames, index, introducesVariablyModifiedIdentifier initializer,
        loopScope path scope initializer, s⟩
  | whileBody : Descends ⟨path, frames, index, headed, scope, .whileLoop s⟩
      ⟨path ++ [0], frames, index, false, scope, s⟩
  | switchMember (h : caseList[k]? = some s) :
    Descends ⟨path, frames, index, headed, scope, .switch caseList⟩
      ⟨path ++ [k], frames, index, false, scope ++ declaredAll path 0 (caseList.take k), s⟩
  | caseMember (h : caseBody[k]? = some s) :
    Descends ⟨path, frames, index, headed, scope, .case caseBody⟩
      ⟨path ++ [k], frames, index, false, scope ++ declaredAll path 0 (caseBody.take k), s⟩

abbrev Within : Place → Place → Prop := ReflTransGen Descends

def root (statements : List Stmt) : Place := ⟨[], [], 0, false, [], .block statements⟩

theorem Descends.path (h : Descends p q) : ∃ k, q.path = p.path ++ [k] := by
  cases h <;> exact ⟨_, rfl⟩

theorem Descends.unique (h : Descends p q) (h' : Descends p q') (hpath : q.path = q'.path) : q = q' := by
  cases h <;> cases h' <;> simp_all

theorem Within.path (h : Within p q) : p.path <+: q.path := by
  induction h with
  | refl => exact prefix_rfl
  | tail _ hstep ih =>
    obtain ⟨k, hk⟩ := hstep.path
    rw [hk]
    exact ih.trans (List.prefix_append _ _)

theorem Within.of_prefix (h : Within p q) (h' : Within p r) (hpath : q.path <+: r.path) : Within q r := by
  induction h using ReflTransGen.head_induction_on with
  | refl => exact h'
  | @head p p' hstep hrest ih =>
    obtain ⟨k, hk⟩ := hstep.path
    have hp' : p'.path <+: r.path := (Within.path hrest).trans hpath
    rcases ReflTransGen.cases_head h' with rfl | ⟨p'', hstep', hrest'⟩
    · have hlength := hp'.length_le
      exact absurd hlength (by simp [hk])
    · obtain ⟨k', hk'⟩ := hstep'.path
      have heq : p'.path = p''.path :=
        (List.prefix_of_prefix_length_le hp' (Within.path hrest') (by simp [hk, hk'])).eq_of_length
          (by simp [hk, hk'])
      obtain rfl := hstep.unique hstep' heq
      exact ih hrest'

theorem Within.eq_of_path (h : Within p q) (hpath : q.path = p.path) : q = p := by
  rcases ReflTransGen.cases_head h with rfl | ⟨p', hstep, hrest⟩
  · rfl
  · obtain ⟨k, hk⟩ := hstep.path
    have hlength := (Within.path hrest).length_le
    exact absurd hlength (by simp [hk, hpath])

theorem Within.unique (h : Within p q) (h' : Within p r) (hpath : q.path = r.path) : q = r :=
  ((h.of_prefix h' (hpath ▸ prefix_rfl)).eq_of_path hpath.symm).symm

theorem Descends.frames (h : Descends p q) :
    (q.frames = p.frames ∧ ∀ statements, p.stmt ≠ .block statements) ∨
      ∃ statements, p.stmt = .block statements ∧ q.frames = ⟨p.path, statements, p.headed⟩ :: p.frames := by
  cases h <;> simp

theorem Within.frames (h : Within p q) : p.frames <:+ q.frames := by
  induction h with
  | refl => exact List.suffix_rfl
  | tail _ hstep ih =>
    rcases hstep.frames with ⟨h, -⟩ | ⟨_, -, h⟩
    · rw [h]
      exact ih
    · rw [h]
      exact ih.trans (List.suffix_cons _ _)

theorem Within.block_frames (h : Within p q) (hne : q ≠ p) (hblock : p.stmt = .block statements) :
    ⟨p.path, statements, p.headed⟩ :: p.frames <:+ q.frames := by
  rcases ReflTransGen.cases_head h with rfl | ⟨p', hstep, hrest⟩
  · exact absurd rfl hne
  · rcases hstep.frames with ⟨-, hno⟩ | ⟨statements', hblock', hframes⟩
    · exact absurd hblock (hno statements)
    · obtain rfl : statements' = statements := by simpa [hblock] using hblock'.symm
      rw [← hframes]
      exact Within.frames hrest

-- What holds at every place

structure Nested (p : Place) : Prop where
  shorter : p.frames.Pairwise fun f g => g.block.length < f.block.length
  inside : ∀ f ∈ p.frames, f.block.length < p.path.length

theorem Descends.nested (h : Descends p q) (hp : Nested p) : Nested q := by
  obtain ⟨k, hk⟩ := h.path
  rcases h.frames with ⟨hframes, -⟩ | ⟨statements, -, hframes⟩
  · refine ⟨hframes ▸ hp.shorter, fun f hf => ?_⟩
    have := hp.inside f (hframes ▸ hf)
    simp only [hk, List.length_append, List.length_singleton]
    omega
  · refine ⟨?_, fun f hf => ?_⟩
    · rw [hframes]
      exact List.pairwise_cons.mpr ⟨hp.inside, hp.shorter⟩
    · simp only [hk, List.length_append, List.length_singleton]
      rw [hframes] at hf
      rcases mem_cons.mp hf with rfl | hf
      · exact Nat.lt_succ_self _
      · exact Nat.lt_succ_of_lt (hp.inside f hf)

theorem Within.nested (h : Within (root statements) q) : Nested q := by
  induction h with
  | refl => exact ⟨.nil, by rintro f ⟨⟩⟩
  | tail _ hstep ih => exact hstep.nested ih

theorem Within.frame_place (h : Within (root statements) q) (hf : f ∈ q.frames) :
    ∃ b, Within (root statements) b ∧ b.path = f.block ∧ b.stmt = .block f.statements ∧
      b.headed = f.headed := by
  induction h with
  | refl => cases hf
  | @tail p q hp hstep ih =>
    rcases hstep.frames with ⟨hframes, -⟩ | ⟨statements, hblock, hframes⟩
    · exact ih (hframes ▸ hf)
    · rw [hframes] at hf
      rcases mem_cons.mp hf with rfl | hf
      · exact ⟨p, hp, rfl, hblock, rfl⟩
      · exact ih hf

/-- The body of a loop with a declaring header is in the scope of this header. -/
structure HeadersHold (p : Place) : Prop where
  own : p.headed → ∃ loop, p.path = loop ++ [1] ∧ .header loop ∈ p.scope
  outer : ∀ f ∈ p.frames, f.headed → ∃ loop, f.block = loop ++ [1] ∧ .header loop ∈ p.scope

theorem Descends.scope (h : Descends p q) : p.scope ⊆ q.scope := by
  cases h
  case forBody =>
    intro d hd
    simp only [loopScope]
    split
    · exact List.mem_append_left _ hd
    · exact hd
  all_goals first | exact List.Subset.refl _ | exact List.subset_append_left _ _

theorem Descends.headersHold (h : Descends p q) (hp : HeadersHold p) : HeadersHold q := by
  have hscope := h.scope
  have howner : q.headed → ∃ loop, q.path = loop ++ [1] ∧ .header loop ∈ q.scope := by
    cases h
    case forBody path _ _ _ _ _ _ =>
      intro hheaded
      exact ⟨path, rfl, by simp_all [loopScope]⟩
    all_goals rintro ⟨⟩
  refine ⟨howner, fun f hf hheaded => ?_⟩
  rcases h.frames with ⟨hframes, -⟩ | ⟨statements, -, hframes⟩
  · obtain ⟨loop, hloop, hmem⟩ := hp.outer f (hframes ▸ hf) hheaded
    exact ⟨loop, hloop, hscope hmem⟩
  · rw [hframes] at hf
    rcases mem_cons.mp hf with rfl | hf
    · obtain ⟨loop, hloop, hmem⟩ := hp.own hheaded
      exact ⟨loop, hloop, hscope hmem⟩
    · obtain ⟨loop, hloop, hmem⟩ := hp.outer f hf hheaded
      exact ⟨loop, hloop, hscope hmem⟩

theorem Within.headersHold (h : Within (root statements) q) : HeadersHold q := by
  induction h with
  | refl => exact ⟨by rintro ⟨⟩, by rintro f ⟨⟩⟩
  | tail _ hstep ih => exact hstep.headersHold ih

mutual

theorem header_notMem_declared (loop path : Path) (s : Stmt) : .header loop ∉ declared path s := by
  cases s with
  | label _ s => exact header_notMem_declared loop (path ++ [0]) s
  | case caseBody => exact header_notMem_declaredAll loop path 0 caseBody
  | varDecl types | typedef type => simp [declared]
  | goto _ | block _ | ifStmt _ _ | forLoop _ _ | whileLoop _ | switch _ | other | null =>
    simp [declared]

theorem header_notMem_declaredAll (loop path : Path) (k : Nat) (l : List Stmt) :
    .header loop ∉ declaredAll path k l := by
  cases l with
  | nil => simp [declaredAll]
  | cons s rest =>
    simp only [declaredAll, mem_append, not_or]
    exact ⟨header_notMem_declared loop (path ++ [k]) s, header_notMem_declaredAll loop path (k + 1) rest⟩

end

theorem Within.header_mem (h : Within (root statements) q) (hmem : .header loop ∈ q.scope) :
    loop ++ [1] <+: q.path := by
  induction h with
  | refl => cases hmem
  | @tail p q hp hstep ih =>
    have hpath := Within.path (.single hstep)
    cases hstep
    case forBody path _ _ _ scope initializer _ =>
      have hcases : .header loop ∈ scope ∨ loop = path := by
        simp only [loopScope] at hmem
        split at hmem
        · simpa using hmem
        · exact .inl hmem
      rcases hcases with hmem | rfl
      · exact (ih hmem).trans hpath
      · exact prefix_rfl
    all_goals
      first
        | exact (ih hmem).trans hpath
        | exact (ih ((mem_append.mp hmem).resolve_right
            (header_notMem_declaredAll _ _ _ _))).trans hpath

-- Sites are places

structure Shows (pick : Stmt → Option String) (p : Place) (site : Site) : Prop where
  location : p.path = site.location
  frames : p.frames = site.frame :: site.outer
  index : p.index = site.index
  scope : p.scope = site.scope
  name : pick p.stmt = some site.name

theorem Descends.reaches {P : Place → Prop} (hstep : Descends p p') :
    (∃ q, Within p' q ∧ P q) → ∃ q, Within p q ∧ P q
  | ⟨q, hq, h⟩ => ⟨q, .head hstep hq, h⟩

section
variable {pick : Stmt → Option String}

mutual

theorem mem_sites (s : Stmt) (h : site ∈ sites pick path frame outer index headed scope s) :
    ∃ q, Within ⟨path, frame :: outer, index, headed, scope, s⟩ q ∧ Shows pick q site := by
  cases s with
  | label name s =>
    simp only [sites, mem_append, Option.mem_toList, Option.map_eq_some_iff] at h
    rcases h with ⟨name', hname, rfl⟩ | h
    · exact ⟨_, .refl, rfl, rfl, rfl, rfl, hname⟩
    · exact Descends.label.reaches (mem_sites s h)
  | goto label =>
    simp only [sites, Option.mem_toList, Option.map_eq_some_iff] at h
    obtain ⟨name', hname, rfl⟩ := h
    exact ⟨_, .refl, rfl, rfl, rfl, rfl, hname⟩
  | block statements =>
    obtain ⟨k, s, hs, hq⟩ := mem_itemSites statements h
    rw [Nat.zero_add] at hq
    exact (Descends.item hs).reaches hq
  | ifStmt thenBranch elseBranch =>
    simp only [sites, mem_append] at h
    rcases h with h | h
    · exact Descends.thenBranch.reaches (mem_sites thenBranch h)
    · exact Descends.elseBranch.reaches (mem_sites elseBranch h)
  | forLoop initializer body => exact Descends.forBody.reaches (mem_sites body h)
  | whileLoop body => exact Descends.whileBody.reaches (mem_sites body h)
  | switch caseList =>
    obtain ⟨k, s, hs, hq⟩ := mem_caseSites caseList h
    rw [Nat.zero_add] at hq
    exact (Descends.switchMember hs).reaches hq
  | case caseBody =>
    obtain ⟨k, s, hs, hq⟩ := mem_caseSites caseBody h
    rw [Nat.zero_add] at hq
    exact (Descends.caseMember hs).reaches hq
  | varDecl _ | typedef _ | other | null => cases h

theorem mem_itemSites (l : List Stmt) (h : site ∈ itemSites pick path frame outer i scope l) :
    ∃ k s, l[k]? = some s ∧ ∃ q,
      Within ⟨path ++ [i + k], frame :: outer, i + k, false,
        scope ++ declaredAll path i (l.take k), s⟩ q ∧ Shows pick q site := by
  cases l with
  | nil => cases h
  | cons s rest => ?_
  simp only [itemSites, mem_append] at h
  rcases h with h | h
  · exact ⟨0, s, rfl, by simpa [declaredAll] using mem_sites s h⟩
  · obtain ⟨k, s', hs', hq⟩ := mem_itemSites rest h
    rw [Nat.add_assoc, Nat.add_comm 1 k] at hq
    exact ⟨k + 1, s', hs', by simpa [declaredAll] using hq⟩

theorem mem_caseSites (l : List Stmt) (h : site ∈ caseSites pick path frame outer index i scope l) :
    ∃ k s, l[k]? = some s ∧ ∃ q,
      Within ⟨path ++ [i + k], frame :: outer, index, false,
        scope ++ declaredAll path i (l.take k), s⟩ q ∧ Shows pick q site := by
  cases l with
  | nil => cases h
  | cons s rest => ?_
  simp only [caseSites, mem_append] at h
  rcases h with h | h
  · exact ⟨0, s, rfl, by simpa [declaredAll] using mem_sites s h⟩
  · obtain ⟨k, s', hs', hq⟩ := mem_caseSites rest h
    rw [Nat.add_assoc, Nat.add_comm 1 k] at hq
    exact ⟨k + 1, s', hs', by simpa [declaredAll] using hq⟩

end

theorem mem_bodySites (h : site ∈ bodySites pick statements) :
    ∃ q, Within (root statements) q ∧ Shows pick q site := by
  obtain ⟨k, s, hs, hq⟩ := mem_itemSites statements h
  rw [Nat.zero_add] at hq
  exact (Descends.item hs).reaches hq

theorem bodySites_unique (h : site ∈ bodySites pick statements)
    (h' : site' ∈ bodySites pick statements) (hlocation : site.location = site'.location) :
    site = site' := by
  obtain ⟨q, hq, hshows⟩ := mem_bodySites h
  obtain ⟨q', hq', hshows'⟩ := mem_bodySites h'
  obtain rfl : q = q' := hq.unique hq' (by rw [hshows.location, hshows'.location, hlocation])
  obtain ⟨name, location, frame, outer, index, scope⟩ := site
  obtain ⟨name', location', frame', outer', index', scope'⟩ := site'
  have hframes := hshows.frames.symm.trans hshows'.frames
  have hname := hshows.name.symm.trans hshows'.name
  simp_all only [List.cons.injEq, Option.some.injEq, Site.mk.injEq, true_and]
  exact ⟨hshows.index.symm.trans hshows'.index, hshows.scope.symm.trans hshows'.scope⟩

end

-- The blocks that are collected

mutual

def holdsHeader : Stmt → Bool
  | .label _ statement => holdsHeader statement
  | .ifStmt thenBranch elseBranch => holdsHeader thenBranch || holdsHeader elseBranch
  | .forLoop initializer body => introducesVariablyModifiedIdentifier initializer || holdsHeader body
  | .whileLoop body => holdsHeader body
  | .switch caseList => holdsHeaderAny caseList
  | .case caseBody => holdsHeaderAny caseBody
  | .goto _ | .block _ | .varDecl _ | .typedef _ | .other | .null => false

def holdsHeaderAny : List Stmt → Bool
  | [] => false
  | s :: rest => holdsHeader s || holdsHeaderAny rest

end

mutual

def headerIndices (index : Nat) : Stmt → List Nat
  | .label _ statement => headerIndices index statement
  | .ifStmt thenBranch elseBranch => headerIndices index thenBranch ++ headerIndices index elseBranch
  | .forLoop initializer body =>
    (if introducesVariablyModifiedIdentifier initializer then [index] else []) ++ headerIndices index body
  | .whileLoop body => headerIndices index body
  | .switch caseList => headerIndicesAll index caseList
  | .case caseBody => headerIndicesAll index caseBody
  | .goto _ | .block _ | .varDecl _ | .typedef _ | .other | .null => []

def headerIndicesAll (index : Nat) : List Stmt → List Nat
  | [] => []
  | s :: rest => headerIndices index s ++ headerIndicesAll index rest

end

def itemIndices (i : Nat) : List Stmt → List Nat
  | [] => []
  | s :: rest =>
    (if introducesVariablyModifiedIdentifier s then [i] else []) ++ headerIndices i s ++
      itemIndices (i + 1) rest

def blockInfo (block : Path) (parent : Option Path) (statements : List Stmt) (headed : Bool) :
    BlockInitInfo :=
  ⟨block, parent, itemIndices 0 statements, itemIndices 0 statements, if headed then some true else none⟩

mutual

def blocksOf (path : Path) (parent : Option Path) (headed : Bool) : Stmt → List BlockInitInfo
  | .label _ statement => blocksOf (path ++ [0]) parent false statement
  | .block statements =>
    blockInfo path parent statements headed :: blocksOfAll path (some path) 0 statements
  | .ifStmt thenBranch elseBranch =>
    blocksOf (path ++ [0]) parent false thenBranch ++ blocksOf (path ++ [1]) parent false elseBranch
  | .forLoop initializer body =>
    blocksOf (path ++ [1]) parent (introducesVariablyModifiedIdentifier initializer) body
  | .whileLoop body => blocksOf (path ++ [0]) parent false body
  | .switch caseList => blocksOfAll path parent 0 caseList
  | .case caseBody => blocksOfAll path parent 0 caseBody
  | .goto _ | .varDecl _ | .typedef _ | .other | .null => []

def blocksOfAll (path : Path) (parent : Option Path) (k : Nat) : List Stmt → List BlockInitInfo
  | [] => []
  | s :: rest => blocksOf (path ++ [k]) parent false s ++ blocksOfAll path parent (k + 1) rest

end

def Place.current (p : Place) : Option Path := p.frames.head?.map Frame.block

def Place.blocks (p : Place) : List BlockInitInfo := blocksOf p.path p.current p.headed p.stmt

mutual

theorem mem_blocksOf (s : Stmt) (h : info ∈ (Place.mk path frames index headed scope s).blocks) :
    ∃ q, Within ⟨path, frames, index, headed, scope, s⟩ q ∧ ∃ statements, q.stmt = .block statements ∧
      info = blockInfo q.path q.current statements q.headed := by
  cases s with
  | label name s => exact Descends.label.reaches (mem_blocksOf s h)
  | block statements =>
    rcases mem_cons.mp h with rfl | h
    · exact ⟨_, .refl, statements, rfl, rfl⟩
    · have hall : info ∈ blocksOfAll path ((Frame.mk path statements headed :: frames).head?.map
          Frame.block) 0 statements := h
      obtain ⟨k, s, hs, hplace⟩ := mem_blocksOfAll statements hall
      rw [Nat.zero_add] at hplace
      exact (Descends.item hs).reaches (hplace k _)
  | ifStmt thenBranch elseBranch =>
    rcases mem_append.mp h with h | h
    · exact Descends.thenBranch.reaches (mem_blocksOf thenBranch h)
    · exact Descends.elseBranch.reaches (mem_blocksOf elseBranch h)
  | forLoop initializer body => exact Descends.forBody.reaches (mem_blocksOf body h)
  | whileLoop body => exact Descends.whileBody.reaches (mem_blocksOf body h)
  | switch caseList =>
    obtain ⟨k, s, hs, hplace⟩ := mem_blocksOfAll caseList h
    rw [Nat.zero_add] at hplace
    exact (Descends.switchMember hs).reaches (hplace index _)
  | case caseBody =>
    obtain ⟨k, s, hs, hplace⟩ := mem_blocksOfAll caseBody h
    rw [Nat.zero_add] at hplace
    exact (Descends.caseMember hs).reaches (hplace index _)
  | goto _ | varDecl _ | typedef _ | other | null => cases h

theorem mem_blocksOfAll (l : List Stmt) (h : info ∈ blocksOfAll path (frames.head?.map Frame.block) i l) :
    ∃ k s, l[k]? = some s ∧ ∀ index scope, ∃ q,
      Within ⟨path ++ [i + k], frames, index, false, scope, s⟩ q ∧ ∃ statements,
        q.stmt = .block statements ∧ info = blockInfo q.path q.current statements q.headed := by
  cases l with
  | nil => cases h
  | cons s rest => ?_
  rcases mem_append.mp h with h | h
  · exact ⟨0, s, rfl, fun index scope => mem_blocksOf s h⟩
  · obtain ⟨k, s', hs', hplace⟩ := mem_blocksOfAll rest h
    rw [Nat.add_assoc, Nat.add_comm 1 k] at hplace
    exact ⟨k + 1, s', hs', hplace⟩

end

theorem blocksOf_subset_all (h : l[k]? = some s) :
    blocksOf (path ++ [i + k]) parent false s ⊆ blocksOfAll path parent i l := by
  induction l generalizing i k with
  | nil => cases h
  | cons s' rest ih =>
    cases k with
    | zero =>
      cases h
      exact List.subset_append_left _ _
    | succ k =>
      have hrest := ih (i := i + 1) (k := k) h
      rw [Nat.add_assoc, Nat.add_comm 1 k] at hrest
      exact List.Subset.trans hrest (List.subset_append_right _ _)

theorem blocksOf_subset_members (h : l[k]? = some s) :
    blocksOf (path ++ [k]) parent false s ⊆ blocksOfAll path parent 0 l := by
  have hall : blocksOf (path ++ [0 + k]) parent false s ⊆ blocksOfAll path parent 0 l :=
    blocksOf_subset_all h
  rwa [Nat.zero_add] at hall

theorem Descends.blocks (h : Descends p q) : q.blocks ⊆ p.blocks := by
  cases h with
  | label | forBody | whileBody => exact List.Subset.refl _
  | item hs => exact List.Subset.trans (blocksOf_subset_members hs) (List.subset_cons_self _ _)
  | thenBranch => exact List.subset_append_left _ _
  | elseBranch => exact List.subset_append_right _ _
  | switchMember hs | caseMember hs => exact blocksOf_subset_members hs

theorem Within.blocks (h : Within p q) : q.blocks ⊆ p.blocks := by
  induction h with
  | refl => exact List.Subset.refl _
  | tail _ hstep ih => exact List.Subset.trans hstep.blocks ih

theorem blockInitInfoFind_block (h : Within (root statements) p) (hblock : p.stmt = .block body) :
    blockInitInfoFind (root statements).blocks p.path =
      some (blockInfo p.path p.current body p.headed) := by
  have hown : blockInfo p.path p.current body p.headed ∈ (root statements).blocks := by
    refine h.blocks ?_
    rw [Place.blocks, hblock]
    exact List.mem_cons_self
  rw [blockInitInfoFind]
  cases hfind : (root statements).blocks.find? fun info => info.block == p.path with
  | none =>
    have hnone := List.find?_eq_none.mp hfind _ hown
    simp [blockInfo] at hnone
  | some info => ?_
  obtain ⟨q, hq, body', hstmt, rfl⟩ := mem_blocksOf _ (List.mem_of_find?_eq_some hfind)
  have hpath : q.path = p.path := by simpa [blockInfo] using List.find?_some hfind
  obtain rfl : q = p := Within.unique hq h hpath
  obtain rfl : body' = body := by simpa [hstmt] using hblock
  rfl

-- Collecting them

def addIndices (block : Path) (indices : List Nat) (blocks : List BlockInitInfo) : List BlockInitInfo :=
  blocks.map fun info =>
    if info.block = block then
      { info with
        initIndices := info.initIndices ++ indices
        vlaIndices := info.vlaIndices ++ indices }
    else info

def Fresh (path : Path) (blocks : List BlockInitInfo) : Prop := ∀ info ∈ blocks, ¬ path <+: info.block

@[simp] theorem addIndices_nil : addIndices block [] blocks = blocks := by
  simp [addIndices]

theorem addIndices_append :
    addIndices block indices (blocks ++ blocks') =
      addIndices block indices blocks ++ addIndices block indices blocks' :=
  List.map_append

theorem addIndices_addIndices :
    addIndices block indices' (addIndices block indices blocks) =
      addIndices block (indices ++ indices') blocks := by
  simp only [addIndices, List.map_map]
  refine map_congr_left fun info _ => ?_
  by_cases h : info.block = block <;> simp [h]

theorem addIndices_of_ne (h : ∀ info ∈ blocks, info.block ≠ block) :
    addIndices block indices blocks = blocks := by
  refine (map_congr_left fun info hinfo => ?_).trans (List.map_id _)
  exact if_neg (h info hinfo)

theorem Fresh.mono (h : Fresh path blocks) (hpath : path <+: path') : Fresh path' blocks :=
  fun info hinfo hunder => h info hinfo (hpath.trans hunder)

theorem Fresh.child (h : Fresh path blocks) : Fresh (path ++ [k]) blocks :=
  h.mono (List.prefix_append _ _)

theorem Fresh.append (h : Fresh path blocks) (h' : Fresh path blocks') : Fresh path (blocks ++ blocks') := by
  intro info hinfo
  rcases mem_append.mp hinfo with hinfo | hinfo
  · exact h info hinfo
  · exact h' info hinfo

theorem Fresh.addIndices (h : Fresh path blocks) : Fresh path (addIndices block indices blocks) := by
  intro info hinfo
  obtain ⟨info', hinfo', rfl⟩ := mem_map.mp hinfo
  split
  all_goals exact h info' hinfo'

theorem blocksOf_under (h : info ∈ blocksOf path (some current) headed s) : path <+: info.block := by
  have hplace : info ∈ (Place.mk path [⟨current, [], false⟩] 0 headed [] s).blocks := h
  obtain ⟨q, hq, statements, -, rfl⟩ := mem_blocksOf s hplace
  exact Within.path hq

theorem not_sibling (h : i ≠ j) (h' : path ++ [i] <+: p) : ¬ path ++ [j] <+: p := by
  intro h''
  have heq := (List.prefix_of_prefix_length_le h' h'' (by simp)).eq_of_length (by simp)
  simp [h] at heq

theorem fresh_blocksOf (h : i ≠ j) : Fresh (path ++ [j]) (blocksOf (path ++ [i]) (some current) headed s) :=
  fun _ hinfo => not_sibling h (blocksOf_under hinfo)

theorem addIndices_blocksOf (h : ¬ path <+: current) :
    addIndices current indices (blocksOf path (some parent) headed s) =
      blocksOf path (some parent) headed s := by
  refine addIndices_of_ne fun info hinfo heq => h ?_
  rw [← heq]
  exact blocksOf_under hinfo

theorem not_under_child (h : ¬ path <+: current) : ¬ path ++ [k] <+: current :=
  fun hunder => h ((List.prefix_append _ _).trans hunder)

theorem blocksOfAll_under (h : info ∈ blocksOfAll path (some current) k l) :
    ∃ j, k ≤ j ∧ path ++ [j] <+: info.block := by
  induction l generalizing k with
  | nil => cases h
  | cons s rest ih =>
    rcases mem_append.mp h with h | h
    · exact ⟨k, Nat.le_refl k, blocksOf_under h⟩
    · obtain ⟨j, hj, hunder⟩ := ih h
      exact ⟨j, Nat.le_of_succ_le hj, hunder⟩

theorem mark_entry (hfresh : Fresh path blocks) (hbody : s.isBlock = true) :
    ((blocks ++ blocksOf path (some current) false s).map fun info =>
        if info.block = path then { info with entryHasVLA := some true } else info) =
      blocks ++ blocksOf path (some current) true s := by
  cases s with
  | block statements =>
    rw [List.map_append]
    congr 1
    · refine (map_congr_left fun info hinfo => if_neg ?_).trans (List.map_id _)
      rintro rfl
      exact hfresh info hinfo prefix_rfl
    · simp only [blocksOf, map_cons, blockInfo, if_true, Bool.false_eq_true, if_false]
      congr 1
      refine (map_congr_left fun info hinfo => if_neg ?_).trans (List.map_id _)
      obtain ⟨j, -, hunder⟩ := blocksOfAll_under hinfo
      rintro rfl
      have hlength := hunder.length_le
      exact absurd hlength (by simp)
  | _ => cases hbody

theorem blocksOf_unheaded (hbody : s.isBlock = false) :
    blocksOf path parent headed s = blocksOf path parent headed' s := by
  cases s <;> first | rfl | cases hbody

theorem blocks_declaring (block : Path) (index : Nat) (declares : Bool) (c : Collected) :
    (if declares then updateInfo block (blockInitInfoAddIndices index) c else c).blocks =
      addIndices block (if declares then [index] else []) c.blocks := by
  cases declares with
  | true => rfl
  | false => simp

theorem child_not_above : ¬ path ++ [k] <+: path := by
  intro h
  exact absurd h.length_le (by simp)

mutual

theorem collect_blocks (index : Nat) (direct : Bool) (s : Stmt) (hfresh : Fresh path c.blocks)
    (hcurrent : ¬ path <+: current) :
    (collectGotoInfoFromStatement path current index direct s c).blocks =
      addIndices current (headerIndices index s) c.blocks ++ blocksOf path (some current) false s := by
  cases s with
  | label name s =>
    have hfresh' : Fresh (path ++ [0]) (labelInfoAdd ⟨name, current, index, path, direct⟩ c).blocks :=
      hfresh.child
    exact collect_blocks index false s hfresh' (not_under_child hcurrent)
  | block statements =>
    have hfresh' : ∀ j, 0 ≤ j → Fresh (path ++ [j]) (blockInitInfoAdd path (some current) c).blocks := by
      rintro j -
      refine hfresh.child.append fun info hinfo => ?_
      obtain rfl := mem_singleton.mp hinfo
      exact child_not_above
    have hnotin : ∀ info ∈ c.blocks, info.block ≠ path := by
      rintro info hinfo rfl
      exact hfresh info hinfo prefix_rfl
    have hitems := collect_items 0 statements hfresh'
    rw [collectGotoInfoFromStatement, hitems, blockInitInfoAdd, addIndices_append, addIndices_of_ne hnotin]
    simp [addIndices, headerIndices, blocksOf, blockInfo]
  | ifStmt thenBranch elseBranch =>
    have hthen := collect_blocks index false thenBranch (hfresh.child : Fresh (path ++ [0]) c.blocks)
      (not_under_child hcurrent)
    have hfresh' : Fresh (path ++ [1])
        (collectGotoInfoFromStatement (path ++ [0]) current index false thenBranch c).blocks := by
      rw [hthen]
      exact hfresh.addIndices.child.append (fresh_blocksOf Nat.zero_ne_one)
    have helse := collect_blocks index false elseBranch hfresh' (not_under_child hcurrent)
    rw [collectGotoInfoFromStatement, helse, hthen, addIndices_append, addIndices_addIndices,
      addIndices_blocksOf (not_under_child hcurrent), append_assoc]
    rfl
  | forLoop initializer body =>
    have hheader := blocks_declaring current index (introducesVariablyModifiedIdentifier initializer) c
    have hfresh' : Fresh (path ++ [1]) (if introducesVariablyModifiedIdentifier initializer then
        updateInfo current (blockInitInfoAddIndices index) c else c).blocks :=
      hheader ▸ hfresh.addIndices.child
    have hbody := collect_blocks index false body hfresh' (not_under_child hcurrent)
    rw [hheader, addIndices_addIndices] at hbody
    simp only [collectGotoInfoFromStatement]
    split
    next hmarks =>
      rw [Bool.and_eq_true] at hmarks
      rw [updateInfo, hbody, mark_entry hfresh.addIndices.child hmarks.2]
      simp only [blocksOf, hmarks.1, headerIndices]
    next hmarks =>
      rw [hbody, headerIndices, blocksOf]
      congr 1
      cases hheaded : introducesVariablyModifiedIdentifier initializer with
      | false => rfl
      | true => exact blocksOf_unheaded (by simpa [hheaded] using hmarks)
  | whileLoop body => exact collect_blocks index false body hfresh.child (not_under_child hcurrent)
  | switch caseList => exact collect_cases index 0 caseList (fun j _ => hfresh.child) hcurrent
  | case caseBody => exact collect_cases index 0 caseBody (fun j _ => hfresh.child) hcurrent
  | goto _ | varDecl _ | typedef _ | other | null =>
    simp [collectGotoInfoFromStatement, gotoInfoAdd, headerIndices, blocksOf]

theorem collect_items (i : Nat) (l : List Stmt) (hfresh : ∀ j, i ≤ j → Fresh (path ++ [j]) c.blocks) :
    (collectGotoInfoFromItems path i l c).blocks =
      addIndices path (itemIndices i l) c.blocks ++ blocksOfAll path (some path) i l := by
  cases l with
  | nil => simp [collectGotoInfoFromItems, itemIndices, blocksOfAll]
  | cons s rest => ?_
  have hdeclares := blocks_declaring path i (introducesVariablyModifiedIdentifier s) c
  have hfresh' : Fresh (path ++ [i]) (if introducesVariablyModifiedIdentifier s then
      updateInfo path (blockInitInfoAddIndices i) c else c).blocks :=
    hdeclares ▸ (hfresh i (Nat.le_refl i)).addIndices
  have hitem := collect_blocks i true s hfresh' child_not_above
  rw [hdeclares, addIndices_addIndices] at hitem
  have hfresh'' : ∀ j, i + 1 ≤ j → Fresh (path ++ [j]) (collectGotoInfoFromStatement (path ++ [i]) path i
      true s (if introducesVariablyModifiedIdentifier s then
        updateInfo path (blockInitInfoAddIndices i) c else c)).blocks := by
    intro j hj
    rw [hitem]
    exact (hfresh j (Nat.le_of_succ_le hj)).addIndices.append (fresh_blocksOf (Nat.ne_of_lt hj))
  have hrest := collect_items (i + 1) rest hfresh''
  rw [collectGotoInfoFromItems, hrest, hitem, addIndices_append, addIndices_addIndices,
    addIndices_blocksOf child_not_above, append_assoc]
  rfl

theorem collect_cases (index k : Nat) (l : List Stmt)
    (hfresh : ∀ j, k ≤ j → Fresh (path ++ [j]) c.blocks) (hcurrent : ¬ path <+: current) :
    (collectGotoInfoFromCases path current index k l c).blocks =
      addIndices current (headerIndicesAll index l) c.blocks ++ blocksOfAll path (some current) k l := by
  cases l with
  | nil => simp [collectGotoInfoFromCases, headerIndicesAll, blocksOfAll]
  | cons s rest => ?_
  have hitem := collect_blocks index false s (hfresh k (Nat.le_refl k)) (not_under_child hcurrent)
  have hfresh' : ∀ j, k + 1 ≤ j → Fresh (path ++ [j])
      (collectGotoInfoFromStatement (path ++ [k]) current index false s c).blocks := by
    intro j hj
    rw [hitem]
    exact (hfresh j (Nat.le_of_succ_le hj)).addIndices.append (fresh_blocksOf (Nat.ne_of_lt hj))
  have hrest := collect_cases index (k + 1) rest hfresh' hcurrent
  rw [collectGotoInfoFromCases, hrest, hitem, addIndices_append, addIndices_addIndices,
    addIndices_blocksOf (not_under_child hcurrent), append_assoc]
  rfl

end

theorem collectGotoInfo_blocks (statements : List Stmt) :
    (collectGotoInfo statements).blocks = (root statements).blocks := by
  have hfresh : ∀ j, 0 ≤ j → Fresh ([] ++ [j]) (blockInitInfoAdd [] none ⟨[], [], []⟩).blocks := by
    rintro j - info hinfo
    obtain rfl := mem_singleton.mp hinfo
    exact child_not_above
  rw [collectGotoInfo, collect_items 0 statements hfresh]
  simp [addIndices, blockInitInfoAdd, root, Place.blocks, Place.current, blocksOf, blockInfo]

-- The labels and gotos that are collected

structure Matches (info : JumpInfo) (site : Site) : Prop where
  name : info.name = site.name
  block : info.block = site.frame.block
  index : info.index = site.index
  location : info.location = site.location

structure Collects (c c' : Collected) (labels gotos : List Site) : Prop where
  labels : ∃ added, c'.labels = c.labels ++ added ∧ List.Forall₂ Matches added labels
  gotos : ∃ added, c'.gotos = c.gotos ++ added ∧ List.Forall₂ Matches added gotos

theorem Collects.of_eq (hlabels : c'.labels = c.labels) (hgotos : c'.gotos = c.gotos) :
    Collects c c' [] [] :=
  ⟨⟨[], by simp [hlabels], .nil⟩, ⟨[], by simp [hgotos], .nil⟩⟩

theorem Collects.trans (h : Collects c c' l g) (h' : Collects c' c'' l' g') :
    Collects c c'' (l ++ l') (g ++ g') := by
  obtain ⟨⟨ls, hls, hlabels⟩, gs, hgs, hgotos⟩ := h
  obtain ⟨⟨ls', hls', hlabels'⟩, gs', hgs', hgotos'⟩ := h'
  exact ⟨⟨ls ++ ls', by rw [hls', hls, append_assoc], List.rel_append hlabels hlabels'⟩,
    ⟨gs ++ gs', by rw [hgs', hgs, append_assoc], List.rel_append hgotos hgotos'⟩⟩

mutual

theorem collect_jumps (path : Path) (index : Nat) (direct : Bool) (frame : Frame) (outer : List Frame)
    (headed : Bool) (scope : List Declaration) (c : Collected) (s : Stmt) :
    Collects c (collectGotoInfoFromStatement path frame.block index direct s c)
      (sites labelName path frame outer index headed scope s)
      (sites gotoName path frame outer index headed scope s) := by
  cases s with
  | label name s =>
    have hown : Collects c (labelInfoAdd ⟨name, frame.block, index, path, direct⟩ c)
        [⟨name, path, frame, outer, index, scope⟩] [] :=
      ⟨⟨_, rfl, .cons ⟨rfl, rfl, rfl, rfl⟩ .nil⟩, ⟨[], by simp [labelInfoAdd], .nil⟩⟩
    exact hown.trans (collect_jumps (path ++ [0]) index false frame outer false scope _ s)
  | goto label =>
    exact ⟨⟨[], by simp [collectGotoInfoFromStatement, gotoInfoAdd], .nil⟩,
      ⟨_, rfl, .cons ⟨rfl, rfl, rfl, rfl⟩ .nil⟩⟩
  | block statements =>
    have hadd : Collects c (blockInitInfoAdd path (some frame.block) c) [] [] := .of_eq rfl rfl
    exact hadd.trans (collect_item_jumps ⟨path, statements, headed⟩ (frame :: outer) scope _ statements)
  | ifStmt thenBranch elseBranch =>
    exact (collect_jumps (path ++ [0]) index false frame outer false scope c thenBranch).trans
      (collect_jumps (path ++ [1]) index false frame outer false scope _ elseBranch)
  | forLoop initializer body =>
    have hheader : Collects c (if introducesVariablyModifiedIdentifier initializer then
        updateInfo frame.block (blockInitInfoAddIndices index) c else c) [] [] := by
      split <;> exact .of_eq rfl rfl
    have hbody := hheader.trans (collect_jumps (path ++ [1]) index false frame outer
      (introducesVariablyModifiedIdentifier initializer) (loopScope path scope initializer) _ body)
    simp only [collectGotoInfoFromStatement]
    split
    · exact ⟨hbody.labels, hbody.gotos⟩
    · exact hbody
  | whileLoop body => exact collect_jumps (path ++ [0]) index false frame outer false scope c body
  | switch caseList => exact collect_case_jumps frame outer scope c caseList
  | case caseBody => exact collect_case_jumps frame outer scope c caseBody
  | varDecl _ | typedef _ | other | null => exact .of_eq rfl rfl

theorem collect_item_jumps (frame : Frame) (outer : List Frame) (scope : List Declaration)
    (c : Collected) (l : List Stmt) :
    Collects c (collectGotoInfoFromItems frame.block i l c)
      (itemSites labelName frame.block frame outer i scope l)
      (itemSites gotoName frame.block frame outer i scope l) := by
  cases l with
  | nil => exact .of_eq rfl rfl
  | cons s rest => ?_
  have hdeclares : Collects c (if introducesVariablyModifiedIdentifier s then
      updateInfo frame.block (blockInitInfoAddIndices i) c else c) [] [] := by
    split <;> exact .of_eq rfl rfl
  exact (hdeclares.trans (collect_jumps (frame.block ++ [i]) i true frame outer false scope _ s)).trans
    (collect_item_jumps frame outer (scope ++ declared (frame.block ++ [i]) s) _ rest)

theorem collect_case_jumps (frame : Frame) (outer : List Frame) (scope : List Declaration)
    (c : Collected) (l : List Stmt) :
    Collects c (collectGotoInfoFromCases path frame.block index k l c)
      (caseSites labelName path frame outer index k scope l)
      (caseSites gotoName path frame outer index k scope l) := by
  cases l with
  | nil => exact .of_eq rfl rfl
  | cons s rest =>
    exact (collect_jumps (path ++ [k]) index false frame outer false scope c s).trans
      (collect_case_jumps frame outer (scope ++ declared (path ++ [k]) s) _ rest)

end

theorem collectGotoInfo_sites (statements : List Stmt) :
    List.Forall₂ Matches (collectGotoInfo statements).labels (bodySites labelName statements) ∧
      List.Forall₂ Matches (collectGotoInfo statements).gotos (bodySites gotoName statements) := by
  obtain ⟨⟨ls, hls, hlabels⟩, gs, hgs, hgotos⟩ := collect_item_jumps (i := 0) ⟨[], statements, false⟩ [] []
    (blockInitInfoAdd [] none ⟨[], [], []⟩) statements
  exact ⟨hls.trans (List.nil_append _) ▸ hlabels, hgs.trans (List.nil_append _) ▸ hgotos⟩

-- What the numbers hold

mutual

theorem mem_headerIndices (s : Stmt) : k ∈ headerIndices index s ↔ k = index ∧ holdsHeader s = true := by
  cases s with
  | label _ s => exact mem_headerIndices s
  | ifStmt thenBranch elseBranch =>
    simp only [headerIndices, holdsHeader, mem_append, Bool.or_eq_true,
      mem_headerIndices thenBranch, mem_headerIndices elseBranch, and_or_left]
  | forLoop initializer body =>
    simp only [headerIndices, holdsHeader, mem_append, Bool.or_eq_true, mem_headerIndices body,
      and_or_left]
    split <;> simp_all
  | whileLoop body => exact mem_headerIndices body
  | switch caseList => exact mem_headerIndicesAll caseList
  | case caseBody => exact mem_headerIndicesAll caseBody
  | goto _ | block _ | varDecl _ | typedef _ | other | null => simp [headerIndices, holdsHeader]

theorem mem_headerIndicesAll (l : List Stmt) :
    k ∈ headerIndicesAll index l ↔ k = index ∧ holdsHeaderAny l = true := by
  cases l with
  | nil => simp [headerIndicesAll, holdsHeaderAny]
  | cons s rest =>
    simp only [headerIndicesAll, holdsHeaderAny, mem_append, Bool.or_eq_true,
      mem_headerIndices s, mem_headerIndicesAll rest, and_or_left]

end

def Declares (s : Stmt) : Prop := introducesVariablyModifiedIdentifier s = true ∨ holdsHeader s = true

theorem mem_itemIndices (l : List Stmt) :
    k ∈ itemIndices i l ↔ ∃ j s, l[j]? = some s ∧ k = i + j ∧ Declares s := by
  induction l generalizing i with
  | nil => simp [itemIndices]
  | cons s rest ih =>
    have hown : (k ∈ (if introducesVariablyModifiedIdentifier s then [i] else []) ++ headerIndices i s) ↔
        k = i ∧ Declares s := by
      simp only [mem_append, mem_headerIndices, Declares, and_or_left]
      split <;> simp_all
    rw [itemIndices, mem_append, hown, ih]
    constructor
    · rintro (⟨rfl, hs⟩ | ⟨j, s', hs', rfl, hdeclares⟩)
      · exact ⟨0, s, rfl, rfl, hs⟩
      · exact ⟨j + 1, s', hs', by omega, hdeclares⟩
    · rintro ⟨(_ | j), s', hs', rfl, hdeclares⟩
      · cases hs'
        exact .inl ⟨rfl, hdeclares⟩
      · exact .inr ⟨j, s', hs', by omega, hdeclares⟩

def DeclaresBetween (statements : List Stmt) (start finish : Nat) : Prop :=
  ∃ i s, start < i ∧ i ≤ finish ∧ statements[i]? = some s ∧ Declares s

theorem blockHasInitBetween_blockInfo :
    blockHasInitBetween (some (blockInfo block parent statements headed)) start finish = true ↔
      DeclaresBetween statements start finish := by
  simp only [blockHasInitBetween, blockInfo, Option.any_some, List.any_eq_true, Bool.and_eq_true,
    decide_eq_true_eq, mem_itemIndices, Nat.zero_add]
  constructor
  · rintro ⟨j, ⟨_, s, hs, rfl, hdeclares⟩, hstart, hfinish⟩
    exact ⟨j, s, hstart, hfinish, hs, hdeclares⟩
  · rintro ⟨j, s, hstart, hfinish, hs, hdeclares⟩
    exact ⟨j, ⟨j, s, hs, rfl, hdeclares⟩, hstart, hfinish⟩

instance (statements : List Stmt) (start finish : Nat) :
    Decidable (DeclaresBetween statements start finish) :=
  decidable_of_iff _ (@blockHasInitBetween_blockInfo [] none statements false start finish)

-- From a block outwards

def Known (blocks : List BlockInitInfo) : List Frame → Prop
  | [] => True
  | f :: outer =>
    blockInitInfoFind blocks f.block =
        some (blockInfo f.block (outer.head?.map Frame.block) f.statements f.headed) ∧
      Known blocks outer

theorem Within.known (h : Within (root statements) q) : Known (root statements).blocks q.frames := by
  induction h with
  | refl => trivial
  | tail hp hstep ih =>
    rcases hstep.frames with ⟨hframes, -⟩ | ⟨body, hblock, hframes⟩
    · rw [hframes]
      exact ih
    · rw [hframes]
      exact ⟨blockInitInfoFind_block hp hblock, ih⟩

theorem Known.mem (h : Known blocks frames) (hf : f ∈ frames) :
    f.block ∈ blocks.map BlockInitInfo.block := by
  induction frames with
  | nil => cases hf
  | cons g outer ih =>
    rcases mem_cons.mp hf with rfl | hf
    · exact mem_map.mpr ⟨_, List.mem_of_find?_eq_some h.1, rfl⟩
    · exact ih h.2 hf

theorem Within.frames_length (h : Within (root statements) q) :
    q.frames.length ≤ (root statements).blocks.length := by
  have hnodup : (q.frames.map Frame.block).Nodup := by
    refine List.pairwise_map.mpr (h.nested.shorter.imp fun hshorter heq => ?_)
    rw [heq] at hshorter
    exact absurd hshorter (Nat.lt_irrefl _)
  have hsubset : q.frames.map Frame.block ⊆ (root statements).blocks.map BlockInitInfo.block := by
    intro block hblock
    obtain ⟨f, hf, rfl⟩ := mem_map.mp hblock
    exact h.known.mem hf
  simpa using (List.subperm_of_subset hnodup hsubset).length_le

theorem blockIsDescendant_known (h : Known blocks (f :: outer)) (hroom : outer.length < room) :
    blockIsDescendant blocks ancestor room (some f.block) = true ↔
      ancestor ∈ (f :: outer).map Frame.block := by
  induction outer generalizing f room with
  | nil =>
    cases room with
    | zero => cases hroom
    | succ room =>
      simp only [blockIsDescendant, h.1, blockInfo, Option.bind_some, List.head?_nil, Option.map_none,
        Bool.or_false, beq_iff_eq, map_cons, List.map_nil, mem_singleton]
      exact eq_comm
  | cons g outer ih =>
    cases room with
    | zero => cases hroom
    | succ room => ?_
    have hrest := ih h.2 (Nat.lt_of_succ_lt_succ hroom)
    simp only [blockIsDescendant, h.1, blockInfo, Option.bind_some, List.head?_cons, Option.map_some,
      Bool.or_eq_true, beq_iff_eq, hrest, map_cons, mem_cons]
    exact or_congr_left eq_comm

theorem blockPathEntersVLA_known (h : Known blocks (f :: outer)) (hne : f.block ≠ ancestor) :
    blockPathEntersVLA blocks ancestor (room + 1) (some f.block) =
      if f.headed then some true else none := by
  simp only [blockPathEntersVLA, if_neg hne, h.1, blockInfo]
  cases f.headed <;> rfl

-- Declarations among the statements of a block

mutual

theorem declared_under (s : Stmt) (h : .item d ∈ declared path s) :
    path <+: d ∧ (d = path → introducesVariablyModifiedIdentifier s = true) := by
  have below : ∀ {k}, path ++ [k] <+: d →
      path <+: d ∧ (d = path → introducesVariablyModifiedIdentifier s = true) := by
    refine fun h => ⟨(List.prefix_append _ _).trans h, ?_⟩
    rintro rfl
    exact absurd h child_not_above
  cases s with
  | label _ s => exact below (declared_under s h).1
  | case caseBody =>
    obtain ⟨j, -, -, hunder, -⟩ := declaredAll_under caseBody h
    exact below hunder
  | varDecl types | typedef type =>
    rw [declared] at h
    split at h
    · obtain rfl := Declaration.item.inj (mem_singleton.mp h)
      exact ⟨prefix_rfl, fun _ => ‹_›⟩
    · cases h
  | goto _ | block _ | ifStmt _ _ | forLoop _ _ | whileLoop _ | switch _ | other | null => cases h

theorem declaredAll_under (l : List Stmt) (h : .item d ∈ declaredAll path k l) :
    ∃ j s, l[j]? = some s ∧ path ++ [k + j] <+: d ∧
      (d = path ++ [k + j] → introducesVariablyModifiedIdentifier s = true) := by
  cases l with
  | nil => cases h
  | cons s rest =>
    rcases mem_append.mp h with h | h
    · exact ⟨0, s, rfl, declared_under s h⟩
    · obtain ⟨j, s', hs', hunder⟩ := declaredAll_under rest h
      rw [Nat.add_assoc, Nat.add_comm 1] at hunder
      exact ⟨j + 1, s', hs', hunder⟩

end

theorem introduces_declared (h : introducesVariablyModifiedIdentifier s = true) :
    declared path s = [.item path] := by
  cases s with
  | varDecl _ | typedef _ => exact if_pos h
  | _ => cases h

theorem declared_subset_all (h : l[i]? = some s) :
    declared (path ++ [k + i]) s ⊆ declaredAll path k l := by
  induction l generalizing k i with
  | nil => cases h
  | cons s' rest ih =>
    cases i with
    | zero =>
      cases h
      exact List.subset_append_left _ _
    | succ i =>
      have hrest := ih (k := k + 1) (i := i) h
      rw [Nat.add_assoc, Nat.add_comm 1 i] at hrest
      exact List.Subset.trans hrest (List.subset_append_right _ _)

theorem item_mem_declaredAll (l : List Stmt) :
    .item (path ++ [i]) ∈ declaredAll path 0 l ↔
      ∃ s, l[i]? = some s ∧ introducesVariablyModifiedIdentifier s = true := by
  constructor
  · intro h
    obtain ⟨j, s, hs, hunder, hown⟩ := declaredAll_under l h
    rw [Nat.zero_add] at hunder hown
    have hpath : path ++ [j] = path ++ [i] := hunder.eq_of_length (by simp)
    obtain rfl : j = i := by simpa using hpath
    exact ⟨s, hs, hown rfl⟩
  · rintro ⟨s, hs, hintroduces⟩
    have hsubset : declared (path ++ [0 + i]) s ⊆ declaredAll path 0 l := declared_subset_all hs
    rw [introduces_declared hintroduces, Nat.zero_add] at hsubset
    exact hsubset List.mem_cons_self

/-- A step adds declarations that stand under the place, and not under the part that it
goes to. -/
theorem Descends.item_mem (h : Descends p q) (hd : .item d ∈ q.scope) :
    .item d ∈ p.scope ∨ ∃ j, p.path ++ [j] <+: d ∧ ¬ q.path <+: d := by
  have beside : ∀ {path i} {l : List Stmt}, .item d ∈ declaredAll path 0 (l.take i) →
      ∃ j, path ++ [j] <+: d ∧ ¬ path ++ [i] <+: d := by
    intro path i l hd
    obtain ⟨j, s, hs, hunder, -⟩ := declaredAll_under _ hd
    obtain ⟨hj, -⟩ := List.getElem?_eq_some_iff.mp hs
    have hlt : j < i := Nat.lt_of_lt_of_le hj (List.length_take_le i l)
    rw [Nat.zero_add] at hunder
    exact ⟨j, hunder, not_sibling (Nat.ne_of_lt hlt) hunder⟩
  cases h
  case forBody =>
    simp only [loopScope] at hd
    split at hd
    · exact .inl (by simpa using hd)
    · exact .inl hd
  case item | switchMember | caseMember => exact (mem_append.mp hd).imp_right beside
  all_goals exact .inl hd

/-- The scope of a place holds, of the statements of the block around it, the declarations
in front of the statement that the place is in, which is no declaration itself if it holds
anything else. -/
structure InBlock (p : Place) : Prop where
  apart : ∀ d, .item d ∈ p.scope → ¬ p.path <+: d
  items : ∀ f ∈ p.frames.head?, ∀ i, .item (f.block ++ [i]) ∈ p.scope ↔
    i < p.index ∧ ∃ s, f.statements[i]? = some s ∧ introducesVariablyModifiedIdentifier s = true
  statement : ∀ f ∈ p.frames.head?, ∃ s, f.statements[p.index]? = some s ∧
    (introducesVariablyModifiedIdentifier s = true → introducesVariablyModifiedIdentifier p.stmt = true)

theorem Descends.apart (h : Descends p q) (hp : InBlock p) : ∀ d, .item d ∈ q.scope → ¬ q.path <+: d := by
  intro d hd
  rcases h.item_mem hd with hd | ⟨-, -, hbeside⟩
  · exact fun hunder => hp.apart d hd ((Within.path (.single h)).trans hunder)
  · exact hbeside

/-- A step that does not go into a block stays in the same statement of the block around. -/
theorem Descends.stays (h : Descends p q) (hno : ∀ statements, p.stmt ≠ .block statements) :
    q.frames = p.frames ∧ q.index = p.index ∧ introducesVariablyModifiedIdentifier p.stmt = false := by
  cases h
  case item => exact absurd rfl (hno _)
  all_goals exact ⟨rfl, rfl, rfl⟩

theorem Descends.inBlock (h : Descends p q) (hnested : Nested p) (hp : InBlock p) : InBlock q := by
  by_cases hblock : ∃ statements, p.stmt = .block statements
  · obtain ⟨statements, hblock⟩ := hblock
    have hapart := h.apart hp
    rcases h with _ | @⟨_, i, s, path, _, _, _, scope, hs⟩ <;> cases hblock
    refine ⟨hapart, ?_, ?_⟩
    · rintro f ⟨⟩ k
      have hscope : .item (path ++ [k]) ∉ scope := fun hd => hp.apart _ hd (List.prefix_append _ _)
      simp only [mem_append, hscope, false_or, item_mem_declaredAll, List.getElem?_take]
      grind
    · rintro f ⟨⟩
      exact ⟨s, hs, id⟩
  · obtain ⟨hframes, hindex, hno⟩ := h.stays fun statements hs => hblock ⟨statements, hs⟩
    refine ⟨h.apart hp, ?_, ?_⟩
    · intro f hf i
      rw [hframes] at hf
      rw [hindex, ← hp.items f hf i]
      refine ⟨fun hd => (h.item_mem hd).resolve_right ?_, fun hd => h.scope hd⟩
      -- what is added stands deeper than the statements of the block around
      rintro ⟨j, hunder, -⟩
      have hinside := hnested.inside f (List.mem_of_mem_head? hf)
      have hlength := hunder.length_le
      simp only [List.length_append, List.length_singleton] at hlength
      omega
    · intro f hf
      rw [hframes] at hf
      obtain ⟨s, hs, hintroduces⟩ := hp.statement f hf
      rw [hindex]
      exact ⟨s, hs, fun hs' => absurd (hintroduces hs') (by simp [hno])⟩

theorem Within.inBlock (h : Within (root statements) q) : InBlock q := by
  induction h with
  | refl => exact ⟨by rintro d ⟨⟩, by rintro f ⟨⟩, by rintro f ⟨⟩⟩
  | tail hp hstep ih => exact hstep.inBlock (Within.nested hp) ih

-- The verdict on a goto

/-- What `gotoEntersScope` computes, from the tree. -/
def verdict (gt label : Site) : Option Bool :=
  if label.frame.block = gt.frame.block then
    some (decide (DeclaresBetween label.frame.statements gt.index label.index))
  else if gt.frame.block ∈ label.outer.map Frame.block then
    if label.frame.headed then some true else none
  else some false

theorem DeclaresBetween.lt (h : DeclaresBetween statements start finish) : start < finish := by
  obtain ⟨i, -, hstart, hfinish, -⟩ := h
  exact Nat.lt_of_lt_of_le hstart hfinish

theorem gotoEntersScope_eq (hlabel : label ∈ bodySites labelName statements)
    (hinfo : Matches info label) (hg : Matches g gt) :
    gotoEntersScope (root statements).blocks info g = verdict gt label := by
  obtain ⟨q, hq, hshows⟩ := mem_bodySites hlabel
  have hknown := hq.known
  have hlength := hq.frames_length
  rw [hshows.frames] at hknown hlength
  rw [gotoEntersScope, verdict, hinfo.block, hg.block, hinfo.index, hg.index, hknown.1]
  by_cases hsame : label.frame.block = gt.frame.block
  · rw [if_pos hsame, if_pos hsame, Option.some.injEq, Bool.eq_iff_iff, Bool.and_eq_true,
      blockHasInitBetween_blockInfo, decide_eq_true_eq, decide_eq_true_eq]
    exact ⟨And.right, fun h => ⟨h.lt, h⟩⟩
  rw [if_neg hsame, if_neg hsame]
  have hdescends : blockIsDescendant (root statements).blocks gt.frame.block
      ((root statements).blocks.length + 1) (some label.frame.block) = true ↔
      gt.frame.block ∈ (label.frame :: label.outer).map Frame.block :=
    blockIsDescendant_known hknown (Nat.lt_succ_of_lt hlength)
  rw [map_cons, mem_cons, or_iff_right (Ne.symm hsame)] at hdescends
  by_cases hunder : gt.frame.block ∈ label.outer.map Frame.block
  · rw [if_pos (hdescends.mpr hunder), if_pos hunder, blockPathEntersVLA_known hknown hsame]
    split <;> simp
  · rw [if_neg (fun h => hunder (hdescends.mp h)), if_neg hunder]

theorem enters_of_headed (hgt : gt ∈ bodySites gotoName statements)
    (hlabel : label ∈ bodySites labelName statements)
    (hunder : gt.frame.block ∈ label.outer.map Frame.block) (hheaded : label.frame.headed = true) :
    Enters gt label := by
  obtain ⟨q, hq, hshows⟩ := mem_bodySites hlabel
  obtain ⟨r, hr, hshows'⟩ := mem_bodySites hgt
  have hframe : label.frame ∈ q.frames := by
    rw [hshows.frames]
    exact List.mem_cons_self
  obtain ⟨loop, hloop, hheader⟩ := hq.headersHold.outer label.frame hframe hheaded
  refine ⟨.header loop, hshows.scope ▸ hheader, fun hin => ?_⟩
  -- a goto under the header lies in the body of the loop, which is the label's block
  have hpath := hr.header_mem (hshows'.scope ▸ hin)
  obtain ⟨b, hb, hbpath, hbstmt, -⟩ := hq.frame_place hframe
  have hwithin : Within b r := hb.of_prefix hr (by rw [hbpath, hloop]; exact hpath)
  have hne : r ≠ b := by
    rintro rfl
    have hname := hshows'.name
    rw [hbstmt] at hname
    cases hname
  have hmem := (hwithin.block_frames hne hbstmt).subset List.mem_cons_self
  have hshorter : gt.frame.block.length < label.frame.block.length := by
    obtain ⟨f, hf, hblock⟩ := mem_map.mp hunder
    have hnested := hq.nested.shorter
    rw [hshows.frames, List.pairwise_cons] at hnested
    exact hblock ▸ hnested.1 f hf
  have hlonger : label.frame.block.length ≤ gt.frame.block.length := by
    have hnested := hr.nested.shorter
    rw [hshows'.frames] at hmem hnested
    rw [← hbpath]
    rcases mem_cons.mp hmem with heq | hmem
    · exact Nat.le_of_eq (congrArg (·.block.length) heq)
    · exact Nat.le_of_lt ((List.pairwise_cons.mp hnested).1 _ hmem)
  exact absurd hshorter (Nat.not_lt.mpr hlonger)

-- Jumps within a block

/-- One of the statements between the two is a declaration. -/
def DeclarationBetween (statements : List Stmt) (start finish : Nat) : Prop :=
  ∃ i s, start < i ∧ i < finish ∧ statements[i]? = some s ∧ introducesVariablyModifiedIdentifier s = true

/-- One of the statements behind the first, the last among them, holds a loop that declares
in its header. -/
def HeaderBetween (statements : List Stmt) (start finish : Nat) : Prop :=
  ∃ i s, start < i ∧ i ≤ finish ∧ statements[i]? = some s ∧ holdsHeader s = true

/-- A declaration that is no statement of the label's block reaches the label and not the
goto: it stands in the header of a loop, or under a switch, a case or a label. -/
def EntersInner (gt label : Site) : Prop :=
  ∃ d ∈ label.scope, d ∉ gt.scope ∧ ∀ i, d ≠ .item (label.frame.block ++ [i])

theorem Shows.inBlock (h : Shows pick q site) (hq : InBlock q)
    (hno : introducesVariablyModifiedIdentifier q.stmt = false) :
    (∀ i, .item (site.frame.block ++ [i]) ∈ site.scope ↔ i < site.index ∧
      ∃ s, site.frame.statements[i]? = some s ∧ introducesVariablyModifiedIdentifier s = true) ∧
      ∀ s, site.frame.statements[site.index]? = some s → introducesVariablyModifiedIdentifier s = false := by
  have hframe : site.frame ∈ q.frames.head? := by
    rw [h.frames]
    rfl
  refine ⟨fun i => ?_, fun s hs => ?_⟩
  · rw [← h.scope, ← h.index]
    exact hq.items _ hframe i
  · obtain ⟨s', hs', hintroduces⟩ := hq.statement _ hframe
    obtain rfl : s' = s := Option.some.inj (hs'.symm.trans (h.index ▸ hs))
    exact Bool.eq_false_iff.mpr fun h => absurd (hintroduces h) (by simp [hno])

theorem label_no_declaration (h : labelName s = some name) :
    introducesVariablyModifiedIdentifier s = false := by
  cases s <;> first | rfl | cases h

theorem goto_no_declaration (h : gotoName s = some name) : introducesVariablyModifiedIdentifier s = false := by
  cases s <;> first | rfl | cases h

theorem frame_statements (hp : Within (root statements) p) (hq : Within (root statements) q)
    (hf : f ∈ p.frames) (hg : g ∈ q.frames) (hblock : f.block = g.block) : f.statements = g.statements := by
  obtain ⟨b, hb, hpath, hstmt, -⟩ := hp.frame_place hf
  obtain ⟨b', hb', hpath', hstmt', -⟩ := hq.frame_place hg
  obtain rfl : b = b' := hb.unique hb' (by rw [hpath, hpath', hblock])
  exact Stmt.block.inj (hstmt.symm.trans hstmt')

theorem same_statements (hgt : gt ∈ bodySites gotoName statements)
    (hlabel : label ∈ bodySites labelName statements) (hsame : label.frame.block = gt.frame.block) :
    label.frame.statements = gt.frame.statements := by
  obtain ⟨q, hq, hshows⟩ := mem_bodySites hlabel
  obtain ⟨r, hr, hshows'⟩ := mem_bodySites hgt
  exact frame_statements hq hr (hshows.frames ▸ List.mem_cons_self)
    (hshows'.frames ▸ List.mem_cons_self) hsame

theorem declaresBetween_iff (hlabel : label ∈ bodySites labelName statements) :
    DeclaresBetween label.frame.statements start label.index ↔
      DeclarationBetween label.frame.statements start label.index ∨
        HeaderBetween label.frame.statements start label.index := by
  obtain ⟨q, hq, hshows⟩ := mem_bodySites hlabel
  obtain ⟨-, hown⟩ := hshows.inBlock hq.inBlock (label_no_declaration hshows.name)
  constructor
  · rintro ⟨i, s, hstart, hfinish, hs, hintroduces | hheader⟩
    · refine .inl ⟨i, s, hstart, Nat.lt_of_le_of_ne hfinish ?_, hs, hintroduces⟩
      rintro rfl
      exact absurd hintroduces (by simp [hown s hs])
    · exact .inr ⟨i, s, hstart, hfinish, hs, hheader⟩
  · rintro (⟨i, s, hstart, hfinish, hs, hintroduces⟩ | ⟨i, s, hstart, hfinish, hs, hheader⟩)
    · exact ⟨i, s, hstart, Nat.le_of_lt hfinish, hs, .inl hintroduces⟩
    · exact ⟨i, s, hstart, hfinish, hs, .inr hheader⟩

theorem enters_iff (hgt : gt ∈ bodySites gotoName statements)
    (hlabel : label ∈ bodySites labelName statements) (hsame : label.frame.block = gt.frame.block) :
    Enters gt label ↔
      DeclarationBetween label.frame.statements gt.index label.index ∨ EntersInner gt label := by
  have hstatements := same_statements hgt hlabel hsame
  obtain ⟨q, hq, hshows⟩ := mem_bodySites hlabel
  obtain ⟨r, hr, hshows'⟩ := mem_bodySites hgt
  obtain ⟨hitems, -⟩ := hshows.inBlock hq.inBlock (label_no_declaration hshows.name)
  obtain ⟨hitems', hown'⟩ := hshows'.inBlock hr.inBlock (goto_no_declaration hshows'.name)
  rw [← hstatements, ← hsame] at hitems'
  rw [← hstatements] at hown'
  constructor
  · rintro ⟨d, hd, hd'⟩
    by_cases hitem : ∃ i, d = .item (label.frame.block ++ [i])
    · obtain ⟨i, rfl⟩ := hitem
      obtain ⟨hfinish, s, hs, hintroduces⟩ := (hitems i).mp hd
      refine .inl ⟨i, s, Nat.lt_of_le_of_ne (Nat.not_lt.mp fun hi => ?_) ?_, hfinish, hs, hintroduces⟩
      · exact hd' ((hitems' i).mpr ⟨hi, s, hs, hintroduces⟩)
      · rintro rfl
        exact absurd hintroduces (by simp [hown' s hs])
    · exact .inr ⟨d, hd, hd', not_exists.mp hitem⟩
  · rintro (⟨i, s, hstart, hfinish, hs, hintroduces⟩ | ⟨d, hd, hd', -⟩)
    · refine ⟨.item (label.frame.block ++ [i]), (hitems i).mpr ⟨hfinish, s, hs, hintroduces⟩, fun hi => ?_⟩
      exact Nat.lt_asymm hstart ((hitems' i).mp hi).1
    · exact ⟨d, hd, hd'⟩

/-- The gotos to `label` for which the check is right. In one block, where no declaration
lies between them, a loop with a declaring header has to lie between exactly if an inner
declaration is entered; to a deeper block the label's has to be the body of a loop that
declares in its header; elsewhere no scope may be entered. -/
def RightAt (gt label : Site) : Prop :=
  if label.frame.block = gt.frame.block then
    DeclarationBetween label.frame.statements gt.index label.index ∨
      (HeaderBetween label.frame.statements gt.index label.index ↔ EntersInner gt label)
  else if gt.frame.block ∈ label.outer.map Frame.block then label.frame.headed = true
  else ¬ Enters gt label

theorem verdict_right (hgt : gt ∈ bodySites gotoName statements)
    (hlabel : label ∈ bodySites labelName statements) :
    verdict gt label = some (decide (Enters gt label)) ↔ RightAt gt label := by
  rw [verdict, RightAt]
  split
  next hsame =>
    rw [Option.some.injEq, Bool.eq_iff_iff, decide_eq_true_eq, decide_eq_true_eq,
      declaresBetween_iff hlabel, enters_iff hgt hlabel hsame]
    tauto
  split
  next hunder =>
    cases hheaded : label.frame.headed with
    | true => simp [enters_of_headed hgt hlabel hunder hheaded]
    | false => simp
  next => simp

-- The reports

theorem find_matches (h : List.Forall₂ Matches infos found) (name : String) :
    Option.Rel Matches (infos.find? fun info => info.name == name)
      (found.find? fun site => site.name == name) := by
  induction h with
  | nil => exact .none
  | @cons info site _ _ hmatches _ ih =>
    rw [List.find?_cons, List.find?_cons, hmatches.name]
    split
    · exact .some hmatches
    · exact ih

/-- What `gotoReport` gives, from the tree. -/
def siteReport (statements : List Stmt) (gt : Site) : Option (List Report) :=
  match target statements gt with
  | none => some [.undefinedLabel gt.location gt.name]
  | some label =>
    (verdict gt label).map fun enters => if enters then [.jumpsIntoScope gt.location gt.name] else []

theorem target_mem (h : target statements gt = some label) : label ∈ bodySites labelName statements :=
  List.mem_of_find?_eq_some h

theorem gotoReport_eq (hg : Matches g gt) :
    gotoReport (collectGotoInfo statements) g = siteReport statements gt := by
  have hfind := find_matches (collectGotoInfo_sites statements).1 gt.name
  rw [gotoReport, siteReport, hg.name, hg.location]
  change Option.Rel Matches _ (target statements gt) at hfind
  generalize hinfo : (collectGotoInfo statements).labels.find? (fun info => info.name == gt.name) = info
    at hfind ⊢
  cases hlabel : target statements gt with
  | none =>
    rw [hlabel] at hfind
    cases hfind
    rfl
  | some label => ?_
  rw [hlabel] at hfind
  cases hfind with
  | some hmatches =>
    simp only [collectGotoInfo_blocks, gotoEntersScope_eq (target_mem hlabel) hmatches hg]

theorem mapM_gotoReport (h : List.Forall₂ Matches infos found) :
    infos.mapM (gotoReport (collectGotoInfo statements)) = found.mapM (siteReport statements) := by
  induction h with
  | nil => rfl
  | cons hmatches _ ih => rw [List.mapM_cons, List.mapM_cons, gotoReport_eq hmatches, ih]

theorem validateGotoScopes_eq (statements : List Stmt) :
    validateGotoScopes statements =
      ((bodySites gotoName statements).mapM (siteReport statements)).map List.flatten := by
  rw [← mapM_gotoReport (collectGotoInfo_sites statements).2]
  rfl

theorem jumpsIntoScope_mem_siteReport (h : siteReport statements gt = some r)
    (hmem : .jumpsIntoScope location name ∈ r) :
    gt.location = location ∧ ∃ label, target statements gt = some label ∧ verdict gt label = some true := by
  rw [siteReport] at h
  split at h
  · cases h
    simp at hmem
  next label hlabel =>
    obtain ⟨enters, hverdict, rfl⟩ := Option.map_eq_some_iff.mp h
    cases enters with
    | false => cases hmem
    | true =>
      simp only [if_true, mem_singleton, Report.jumpsIntoScope.injEq] at hmem
      exact ⟨hmem.1.symm, label, hlabel, hverdict⟩

theorem jumpsIntoScope_mem (hreports : (bodySites gotoName statements).mapM (siteReport statements) = some rs)
    (hgt : gt ∈ bodySites gotoName statements) :
    .jumpsIntoScope gt.location gt.name ∈ rs.flatten ↔
      ∃ label, target statements gt = some label ∧ verdict gt label = some true := by
  have hall := mapM_forall₂ hreports
  constructor
  · intro hmem
    obtain ⟨r, hr, hmem⟩ := List.mem_flatten.mp hmem
    obtain ⟨gt', hgt', hreport⟩ := exists_of_mem_left hall.flip hr
    obtain ⟨hlocation, label, hlabel, hverdict⟩ := jumpsIntoScope_mem_siteReport hreport hmem
    obtain rfl := bodySites_unique hgt' hgt hlocation
    exact ⟨label, hlabel, hverdict⟩
  · rintro ⟨label, hlabel, hverdict⟩
    obtain ⟨r, hr, hreport⟩ := exists_of_mem_left hall hgt
    simp only [siteReport, hlabel, hverdict, Option.map_some, if_true, Option.some.injEq] at hreport
    exact List.mem_flatten.mpr ⟨r, hr, hreport ▸ List.mem_singleton_self _⟩

theorem siteReport_isSome (h : ∀ label, target statements gt = some label → (verdict gt label).isSome) :
    ∃ r, siteReport statements gt = some r := by
  cases hlabel : target statements gt with
  | none => exact ⟨_, by rw [siteReport, hlabel]⟩
  | some label =>
    obtain ⟨enters, hverdict⟩ := Option.isSome_iff_exists.mp (h label hlabel)
    simp only [siteReport, hlabel, hverdict, Option.map_some]
    exact ⟨_, rfl⟩

/-- The check of a body is exact when it is right for each of its gotos. -/
theorem gotosExact_iff (statements : List Stmt) :
    GotosExact statements ↔
      ∀ gt ∈ bodySites gotoName statements, ∀ label, target statements gt = some label →
        RightAt gt label := by
  constructor
  · rintro ⟨reports, hreports, hexact⟩ gt hgt label hlabel
    rw [validateGotoScopes_eq] at hreports
    obtain ⟨rs, hrs, rfl⟩ := Option.map_eq_some_iff.mp hreports
    refine (verdict_right hgt (target_mem hlabel)).mp ?_
    have hgoto := (jumpsIntoScope_mem hrs hgt).symm.trans (hexact gt hgt)
    simp only [hlabel, Option.some.injEq, exists_eq_left'] at hgoto
    obtain ⟨r, -, hreport⟩ := exists_of_mem_left (mapM_forall₂ hrs) hgt
    simp only [siteReport, hlabel, Option.map_eq_some_iff] at hreport
    obtain ⟨enters, hverdict, -⟩ := hreport
    rw [hverdict, Option.some.injEq] at hgoto ⊢
    rw [Bool.eq_iff_iff, hgoto, decide_eq_true_eq]
  · intro h
    have hverdict : ∀ gt ∈ bodySites gotoName statements, ∀ label, target statements gt = some label →
        verdict gt label = some (decide (Enters gt label)) :=
      fun gt hgt label hlabel => (verdict_right hgt (target_mem hlabel)).mpr (h gt hgt label hlabel)
    have hsome : ∀ gt ∈ bodySites gotoName statements, ∃ r, siteReport statements gt = some r :=
      fun gt hgt => siteReport_isSome fun label hlabel => by rw [hverdict gt hgt label hlabel]; rfl
    obtain ⟨rs, hrs⟩ := mapM_isSome hsome
    refine ⟨rs.flatten, by rw [validateGotoScopes_eq, hrs, Option.map_some], fun gt hgt => ?_⟩
    rw [jumpsIntoScope_mem hrs hgt]
    refine exists_congr fun label => and_congr_right fun hlabel => ?_
    rw [hverdict gt hgt label hlabel, Option.some.injEq, decide_eq_true_eq]

/-- `int a[n];` -/
def vlaDeclaration : Stmt := .varDecl [⟨true, [.array true false false (some .other)]⟩]

/-- A goto over a loop is reported for the header of the loop, a label in a nested block is
judged by a field that was never stored, and a goto out of a nested block is not reported. -/
theorem gotos_misjudged :
    ¬ GotosExact [.goto "L", .forLoop vlaDeclaration (.block []), .label "L" .other] ∧
      ¬ GotosExact [.goto "L", .block [.label "L" .other]] ∧
      ¬ GotosExact [.block [.goto "L"], vlaDeclaration, .label "L" .other] := by
  refine ⟨?_, ?_, ?_⟩
  · rintro ⟨reports, hreports, hexact⟩
    obtain rfl : [.jumpsIntoScope [0] "L"] = reports := Option.some.inj hreports
    obtain ⟨label, hlabel, d, hd, -⟩ := (hexact _ List.mem_cons_self).mp List.mem_cons_self
    cases hlabel
    cases hd
  · rintro ⟨reports, hreports, -⟩
    cases hreports
  · rintro ⟨reports, hreports, hexact⟩
    obtain rfl : [] = reports := Option.some.inj hreports
    have hreport := (hexact _ List.mem_cons_self).mpr
      ⟨_, rfl, .item [1], List.mem_cons_self, List.not_mem_nil⟩
    cases hreport

end Fisics.Goto
