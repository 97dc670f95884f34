/-
**Paths and the routes they lead to.**

A path is the list of its parts between slashes; one that ends in a slash has an empty last part.

* `matchPath` — the arguments of a path for a pattern; one iff lemma for each kind of segment.
* `formatSuffixPatterns` — every pattern with a slash at its end, and with the suffix of a format there.
* `resolve` — the first route whose pattern matches; `resolve_beside`: what a path leads to in two tables of
  the same patterns.
* `dropLast_prefix_of_parts` — all parts but the last are those of the path.
-/

import Mathlib.Data.List.Basic
import Esloq.Lib.Rest

namespace Rest

/-! ### Patterns -/

/-- A part of a pattern between two slashes. -/
inductive Segment
  | literal (text : String)
  | id
  | pk
  deriving DecidableEq

/-- `[0-9]+`. -/
def isNumber (text : String) : Bool := text.toList ≠ [] ∧ text.toList.all Char.isDigit

/-- The arguments a path has for a pattern, if it matches. -/
def matchPath : List Segment → List String → Option (Option String × Option String)
  | [], [] => some (none, none)
  | .literal text :: pattern, part :: path => if part = text then matchPath pattern path else none
  | .id :: pattern, part :: path =>
      if isNumber part then (matchPath pattern path).map fun (_, pk) => (some part, pk) else none
  | .pk :: pattern, part :: path =>
      if isNumber part then (matchPath pattern path).map fun (id, _) => (id, some part) else none
  | _, _ => none

section Match

variable {text : String} {pattern : List Segment} {path : List String} {id pk : Option String}

theorem matchPath_nil : matchPath [] path = some (id, pk) ↔ path = [] ∧ id = none ∧ pk = none := by
  cases path with
  | nil => simp [matchPath, eq_comm]
  | cons part rest => simp [matchPath]

theorem matchPath_literal : matchPath (.literal text :: pattern) path = some (id, pk) ↔
    ∃ rest, path = text :: rest ∧ matchPath pattern rest = some (id, pk) := by
  cases path with
  | nil => simp [matchPath]
  | cons part rest =>
      simp only [matchPath, Option.ite_none_right_eq_some, List.cons.injEq]
      constructor
      · exact fun ⟨same, matched⟩ => ⟨rest, ⟨same, rfl⟩, matched⟩
      · rintro ⟨_, ⟨same, rfl⟩, matched⟩
        exact ⟨same, matched⟩

theorem matchPath_id : matchPath (.id :: pattern) path = some (id, pk) ↔
    ∃ part rest other, path = part :: rest ∧ isNumber part = true ∧ id = some part ∧
      matchPath pattern rest = some (other, pk) := by
  cases path with
  | nil => simp [matchPath]
  | cons part rest =>
      simp only [matchPath, List.cons.injEq, Option.ite_none_right_eq_some, Option.map_eq_some_iff,
        Prod.exists, Prod.mk.injEq]
      constructor
      · rintro ⟨number, other, pk', matched, rfl, rfl⟩
        exact ⟨part, rest, other, ⟨rfl, rfl⟩, number, rfl, matched⟩
      · rintro ⟨_, _, other, ⟨rfl, rfl⟩, number, rfl, matched⟩
        exact ⟨number, other, pk, matched, rfl, rfl⟩

theorem matchPath_pk : matchPath (.pk :: pattern) path = some (id, pk) ↔
    ∃ part rest other, path = part :: rest ∧ isNumber part = true ∧ pk = some part ∧
      matchPath pattern rest = some (id, other) := by
  cases path with
  | nil => simp [matchPath]
  | cons part rest =>
      simp only [matchPath, List.cons.injEq, Option.ite_none_right_eq_some, Option.map_eq_some_iff,
        Prod.exists, Prod.mk.injEq]
      constructor
      · rintro ⟨number, id', other, matched, rfl, rfl⟩
        exact ⟨part, rest, other, ⟨rfl, rfl⟩, number, rfl, matched⟩
      · rintro ⟨_, _, other, ⟨rfl, rfl⟩, number, rfl, matched⟩
        exact ⟨number, id, other, matched, rfl, rfl⟩

end Match

/-- A path has a last number exactly if its pattern has one. -/
theorem pk_of_matchPath : ∀ {pattern : List Segment} {path : List String} {id pk : Option String},
    matchPath pattern path = some (id, pk) → (pk.isSome = true ↔ Segment.pk ∈ pattern)
  | [], path, id, pk, matched => by
      obtain ⟨-, -, rfl⟩ := matchPath_nil.mp matched
      simp
  | .literal text :: pattern, path, id, pk, matched => by
      obtain ⟨rest, -, matched⟩ := matchPath_literal.mp matched
      rw [pk_of_matchPath matched]
      simp
  | .id :: pattern, path, id, pk, matched => by
      obtain ⟨-, rest, other, -, -, -, matched⟩ := matchPath_id.mp matched
      rw [pk_of_matchPath matched]
      simp
  | .pk :: pattern, path, id, pk, matched => by
      obtain ⟨part, -, -, -, -, rfl, -⟩ := matchPath_pk.mp matched
      simp

/-! ### The end of a path -/

/-- A path without the newline that `$` lets stand at its end. -/
def withoutNewline (path : List String) : List String :=
  match path.getLast? with
  | none => path
  | some last =>
      if last.toList.getLast? = some '\n' then path.dropLast ++ [String.ofList last.toList.dropLast]
      else path

/-- A path without the slash at its end. -/
def withoutSlash (path : List String) : Option (List String) :=
  if path.getLast? = some "" then some path.dropLast else none

/-- `[a-z0-9]+`. -/
def isFormat (text : List Char) : Bool :=
  text ≠ [] ∧ text.all fun c => c.isDigit ∨ ('a' ≤ c ∧ c ≤ 'z')

/-- `\.(?P<format>[a-z0-9]+)` at the end of a path. No other part of a pattern matches a full stop. -/
def splitFormat (path : List String) : Option (List String × String) :=
  match path.getLast?.map fun last => last.toList.splitOn '.' with
  | some [stem, format] =>
      if isFormat format then some (path.dropLast ++ [String.ofList stem], String.ofList format) else none
  | _ => none

/-- What the segments of a pattern have to match, and the format: before `/$`, or before
`\.(?P<format>[a-z0-9]+)/?$`. -/
def parts (suffixed : Bool) (path : List String) : Option (List String × Option String) :=
  let path := withoutNewline path
  if suffixed then
    (splitFormat ((withoutSlash path).getD path)).map fun (parts, format) => (parts, some format)
  else (withoutSlash path).map fun parts => (parts, none)

theorem withoutNewline_dropLast (path : List String) : (withoutNewline path).dropLast = path.dropLast := by
  rw [withoutNewline]
  split
  · rfl
  · split
    · exact List.dropLast_concat
    · rfl

theorem eq_of_withoutSlash {path rest : List String} (stripped : withoutSlash path = some rest) :
    rest = path.dropLast := by
  rw [withoutSlash] at stripped
  split at stripped
  · exact (Option.some.inj stripped).symm
  · cases stripped

theorem dropLast_of_splitFormat {path parts : List String} {format : String}
    (found : splitFormat path = some (parts, format)) : parts.dropLast = path.dropLast := by
  rw [splitFormat] at found
  split at found
  · split at found
    · cases found
      exact List.dropLast_concat
    · cases found
  · cases found

/-- All parts but the last are those of the path. -/
theorem dropLast_prefix_of_parts {suffixed : Bool} {path ps : List String} {format : Option String}
    (found : parts suffixed path = some (ps, format)) : ps.dropLast <+: path := by
  have ofPath : (withoutNewline path).dropLast <+: path :=
    withoutNewline_dropLast path ▸ List.dropLast_prefix path
  cases suffixed with
  | false =>
      obtain ⟨rest, stripped, same⟩ := Option.map_eq_some_iff.mp found
      cases same
      rw [eq_of_withoutSlash stripped]
      exact (List.dropLast_prefix _).trans ofPath
  | true =>
      obtain ⟨⟨stem, suffix⟩, split, same⟩ := Option.map_eq_some_iff.mp found
      cases same
      rw [dropLast_of_splitFormat split]
      cases stripped : withoutSlash (withoutNewline path) with
      | none => exact ofPath
      | some rest =>
          rw [eq_of_withoutSlash stripped]
          exact (List.dropLast_prefix _).trans ofPath

/-! ### Routes -/

/-- The arguments of a URL. -/
structure Kwargs where
  id : Option String
  pk : Option String
  format : Option String
  deriving DecidableEq

/-- A request with the arguments of its URL. -/
def Request.withKwargs {υ : Type} (request : Request υ) (kwargs : Kwargs) : Request υ :=
  { request with id := kwargs.id, pk := kwargs.pk, format := kwargs.format }

/-- A pattern before its end, whether it ends in a format, and what it leads to. -/
structure Route (τ : Type) where
  pattern : List Segment
  suffixed : Bool
  target : τ

section Routes

variable {τ : Type}

/-- The arguments that a path has for a route, if it matches. -/
def Route.kwargs (route : Route τ) (path : List String) : Option Kwargs :=
  (parts route.suffixed path).bind fun (parts, format) =>
    (matchPath route.pattern parts).map fun (id, pk) => ⟨id, pk, format⟩

/-- `format_suffix_patterns`. -/
def formatSuffixPatterns (patterns : List (List Segment × τ)) : List (Route τ) :=
  patterns.flatMap fun (pattern, target) => [⟨pattern, false, target⟩, ⟨pattern, true, target⟩]

/-- What a path leads to, and the arguments of its URL. -/
def resolve (routes : List (Route τ)) (path : List String) : Option (τ × Kwargs) :=
  routes.findSome? fun route => (route.kwargs path).map (route.target, ·)

theorem Route.kwargs_eq_some {route : Route τ} {path : List String} {kwargs : Kwargs} :
    route.kwargs path = some kwargs ↔ ∃ ps, parts route.suffixed path = some (ps, kwargs.format) ∧
      matchPath route.pattern ps = some (kwargs.id, kwargs.pk) := by
  unfold Route.kwargs
  constructor
  · intro found
    obtain ⟨⟨ps, format⟩, split, found⟩ := Option.bind_eq_some_iff.mp found
    obtain ⟨⟨id, pk⟩, matched, same⟩ := Option.map_eq_some_iff.mp found
    cases same
    exact ⟨ps, split, matched⟩
  · rintro ⟨ps, split, matched⟩
    rw [split, Option.bind_some]
    exact Option.map_eq_some_iff.mpr ⟨(kwargs.id, kwargs.pk), matched, rfl⟩

theorem resolve_eq_some {patterns : List (List Segment × τ)} {path : List String} {target : τ}
    {kwargs : Kwargs} (resolved : resolve (formatSuffixPatterns patterns) path = some (target, kwargs)) :
    ∃ pattern suffixed ps, (pattern, target) ∈ patterns ∧
      parts suffixed path = some (ps, kwargs.format) ∧
      matchPath pattern ps = some (kwargs.id, kwargs.pk) := by
  obtain ⟨route, member, found⟩ := List.exists_of_findSome?_eq_some resolved
  obtain ⟨arguments, isMatch, same⟩ := Option.map_eq_some_iff.mp found
  cases same
  obtain ⟨ps, split, matched⟩ := Route.kwargs_eq_some.mp isMatch
  obtain ⟨⟨pattern, target'⟩, isPattern, isRoute⟩ := List.mem_flatMap.mp member
  rcases List.mem_pair.mp isRoute with rfl | rfl
  · exact ⟨pattern, false, ps, isPattern, split, matched⟩
  · exact ⟨pattern, true, ps, isPattern, split, matched⟩

theorem resolve_cons (pattern : List Segment) (target : τ) (rest : List (List Segment × τ))
    (path : List String) : resolve (formatSuffixPatterns ((pattern, target) :: rest)) path =
      (((⟨pattern, false, target⟩ : Route τ).kwargs path <|> (⟨pattern, true, target⟩ : Route τ).kwargs path).map
        (target, ·) <|> resolve (formatSuffixPatterns rest) path) := by
  simp only [resolve, formatSuffixPatterns, List.flatMap_cons, List.cons_append, List.nil_append,
    List.findSome?_cons]
  cases (⟨pattern, false, target⟩ : Route τ).kwargs path with
  | some kwargs => rfl
  | none =>
      cases (⟨pattern, true, target⟩ : Route τ).kwargs path with
      | some kwargs => rfl
      | none => rfl

/-- In two tables of the same patterns a path leads to targets that stand beside each other. -/
theorem resolve_beside {σ : Type} {beside : List Segment → τ → σ → Prop} {firsts : List (List Segment × τ)}
    {seconds : List (List Segment × σ)} (path : List String)
    (tables : List.Forall₂ (fun first second => first.1 = second.1 ∧ beside first.1 first.2 second.2)
      firsts seconds) :
    resolve (formatSuffixPatterns firsts) path = none ∧ resolve (formatSuffixPatterns seconds) path = none ∨
    ∃ pattern first second kwargs, beside pattern first second ∧
      (kwargs.pk.isSome = true ↔ Segment.pk ∈ pattern) ∧
      resolve (formatSuffixPatterns firsts) path = some (first, kwargs) ∧
      resolve (formatSuffixPatterns seconds) path = some (second, kwargs) := by
  induction tables with
  | nil => exact .inl ⟨rfl, rfl⟩
  | @cons one other firsts seconds head tail later =>
      obtain ⟨pattern, first⟩ := one
      obtain ⟨pattern', second⟩ := other
      obtain ⟨rfl, isBeside⟩ : pattern = pattern' ∧ beside pattern first second := head
      rw [resolve_cons, resolve_cons]
      have same (suffixed : Bool) : (⟨pattern, suffixed, first⟩ : Route τ).kwargs path =
          (⟨pattern, suffixed, second⟩ : Route σ).kwargs path := rfl
      have keyed {suffixed : Bool} {kwargs : Kwargs}
          (found : (⟨pattern, suffixed, second⟩ : Route σ).kwargs path = some kwargs) :
          kwargs.pk.isSome = true ↔ Segment.pk ∈ pattern := by
        obtain ⟨ps, -, matched⟩ := Route.kwargs_eq_some.mp found
        exact pk_of_matchPath matched
      rw [same, same]
      cases plain : (⟨pattern, false, second⟩ : Route σ).kwargs path with
      | some kwargs => exact .inr ⟨pattern, first, second, kwargs, isBeside, keyed plain, rfl, rfl⟩
      | none =>
          cases suffixed : (⟨pattern, true, second⟩ : Route σ).kwargs path with
          | some kwargs => exact .inr ⟨pattern, first, second, kwargs, isBeside, keyed suffixed, rfl, rfl⟩
          | none => exact later

end Routes

end Rest
