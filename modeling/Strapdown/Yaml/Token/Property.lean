import Strapdown.Yaml.Token
import Strapdown.Yaml.Token.Line
import Strapdown.Decimal.Literal

/-! Anchors, aliases, tags and directives. -/

namespace Strapdown.Yaml.Property

/-- The name of an anchor or alias, after its indicator. -/
def name? (c : Cursor) : Option (String × Cursor) :=
  let (name, after) := c.span isNameChar
  let ends := match after.rest with
    | [] => true
    | e :: _ => isSpace e || "?:,]\x7d%@\x60".contains e
  if name.isEmpty || !ends then none else some (String.ofList name, after)

theorem left_name?_le {c after : Cursor} {name : String} (h : name? c = some (name, after)) :
    after.left ≤ c.left := by
  simp only [name?] at h
  grind [Cursor.left_span_le]

def isUriChar (verbatim : Bool) (c : Char) : Bool :=
  isNameChar c || ";/?:@&=+$.!~*\x27()".contains c || verbatim && ",[]".contains c

/-- How many octets follow the first one of a character in UTF-8. -/
def octetsAfter? (octet : Nat) : Option Nat :=
  if octet < 0x80 then some 0
  else if octet / 0x20 = 0x6 then some 1
  else if octet / 0x10 = 0xe then some 2
  else if octet / 0x8 = 0x1e then some 3
  else none

/--
Reads a resource name. An escaped octet stands for the character of its number; `pending` octets
have to follow before anything else.
-/
def uri? (verbatim : Bool) (taken : List Char) (pending : Nat) :
    List Char → Mark → Option (List Char × Cursor)
  | '%' :: a :: b :: cs, m =>
    match Decimal.digitsValue? 16 [a, b] with
    | none => none
    | some octet =>
      let left := match pending with
        | 0 => octetsAfter? octet
        | n + 1 => if octet / 0x40 = 0x2 then some n else none
      match left with
      | none => none
      | some left => uri? verbatim (Char.ofNat octet :: taken) left cs (m.skip 3)
  | cs, m =>
    if pending ≠ 0 then none
    else match cs with
      | [] => some (taken.reverse, ⟨[], m⟩)
      | c :: cs =>
        if isUriChar verbatim c then uri? verbatim (c :: taken) 0 cs m.next
        else if c = '%' then none
        else some (taken.reverse, ⟨c :: cs, m⟩)

theorem left_uri?_le {verbatim : Bool} {taken uri : List Char} {pending : Nat} {cs : List Char}
    {m : Mark} {after : Cursor} (h : uri? verbatim taken pending cs m = some (uri, after)) :
    after.left ≤ cs.length := by
  fun_induction uri? verbatim taken pending cs m <;> grind [Cursor.left]

/-- The part of a resource name that counts: it ends before a NUL, which only an escape can give. -/
def beforeNul (uri : List Char) : List Char := uri.takeWhile (· ≠ '\x00')

/-- A resource name that is written with at least one character. -/
def someUri? (verbatim : Bool) (c : Cursor) : Option (String × Cursor) := do
  let (uri, after) ← uri? verbatim [] 0 c.rest c.mark
  if uri.isEmpty then none else some (String.ofList (beforeNul uri), after)

theorem left_someUri?_le {verbatim : Bool} {c after : Cursor} {uri : String}
    (h : someUri? verbatim c = some (uri, after)) : after.left ≤ c.left := by
  simp only [someUri?, Option.bind_eq_bind, Option.bind_eq_some_iff] at h
  obtain ⟨⟨read, rest⟩, hread, h⟩ := h
  have := left_uri?_le hread
  grind [Cursor.left]

/-- A tag, at its exclamation mark. -/
def tagKind? (c : Cursor) : Option (Token.Kind × Cursor) :=
  match (c.skip 1).rest with
  | '<' :: _ => do
    let (uri, after) ← someUri? true (c.skip 2)
    if after.rest.head? = some '>' then some (.tag "" uri, after.skip 1) else none
  | _ => do
    let (name, after) := (c.skip 1).span isNameChar
    if after.rest.head? = some '!' then
      let (suffix, after) ← someUri? false (after.skip 1)
      return (.tag ("!" ++ String.ofList name ++ "!") suffix, after)
    else
      let (more, after) ← uri? false [] 0 after.rest after.mark
      let suffix := beforeNul (name ++ more)
      return (if suffix.isEmpty then .tag "" "!" else .tag "!" (String.ofList suffix), after)

/-- A tag with the white space, or in flow collections the comma, that has to follow it. -/
def tag? (flow : Bool) (c : Cursor) : Option (Token.Kind × Cursor) := do
  let (kind, after) ← tagKind? c
  if atSpace after.rest || flow && after.rest.head? = some ',' then some (kind, after) else none

theorem left_tagKind?_le {c after : Cursor} {kind : Token.Kind}
    (h : tagKind? c = some (kind, after)) : after.left ≤ (c.skip 1).left := by
  have hname := (c.skip 1).left_span_le isNameChar
  simp only [tagKind?, Option.bind_eq_bind, Option.pure_def] at h
  split at h
  · obtain ⟨⟨uri, rest⟩, hread, h⟩ := Option.bind_eq_some_iff.1 h
    have := left_someUri?_le hread
    grind [Cursor.left_skip]
  · split at h
    · obtain ⟨⟨uri, rest⟩, hread, h⟩ := Option.bind_eq_some_iff.1 h
      have := left_someUri?_le hread
      grind [Cursor.left_skip]
    · obtain ⟨⟨uri, rest⟩, hread, h⟩ := Option.bind_eq_some_iff.1 h
      have := left_uri?_le hread
      grind [Cursor.left]

theorem left_tag?_le {flow : Bool} {c after : Cursor} {kind : Token.Kind}
    (h : tag? flow c = some (kind, after)) : after.left ≤ (c.skip 1).left := by
  simp only [tag?, Option.bind_eq_bind, Option.bind_eq_some_iff] at h
  obtain ⟨read, hread, h⟩ := h
  have := left_tagKind?_le hread
  grind

def versionNumber? (c : Cursor) : Option (Nat × Cursor) := do
  let (digits, after) := c.span Char.isDigit
  if 9 < digits.length then none else return (← Decimal.digitsValue? 10 digits, after)

theorem left_versionNumber?_le {c after : Cursor} {n : Nat}
    (h : versionNumber? c = some (n, after)) : after.left ≤ c.left := by
  have := c.left_span_le Char.isDigit
  simp only [versionNumber?, Option.bind_eq_bind, Option.pure_def] at h
  grind [Option.bind_eq_some_iff]

def version? (c : Cursor) : Option (Token.Kind × Cursor) := do
  let (major, c) ← versionNumber? c
  if c.rest.head? ≠ some '.' then none else
  let (minor, c) ← versionNumber? (c.skip 1)
  return (.versionDirective major minor, c)

theorem left_version?_le {c after : Cursor} {kind : Token.Kind}
    (h : version? c = some (kind, after)) : after.left ≤ c.left := by
  simp only [version?, Option.bind_eq_bind, Option.pure_def, Option.bind_eq_some_iff] at h
  obtain ⟨major, hmajor, h⟩ := h
  have := left_versionNumber?_le hmajor
  split at h
  · cases h
  obtain ⟨minor, hminor, h⟩ := Option.bind_eq_some_iff.1 h
  have := left_versionNumber?_le hminor
  grind [Cursor.left_skip]

def tagHandle? (c : Cursor) : Option (String × Cursor) := do
  if c.rest.head? ≠ some '!' then none else
  let (name, c) := (c.skip 1).span isNameChar
  if c.rest.head? = some '!' then return ("!" ++ String.ofList name ++ "!", c.skip 1)
  else if name.isEmpty then return ("!", c)
  else none

theorem left_tagHandle?_le {c after : Cursor} {handle : String}
    (h : tagHandle? c = some (handle, after)) : after.left ≤ c.left := by
  have := (c.skip 1).left_span_le isNameChar
  simp only [tagHandle?, Option.pure_def] at h
  grind [Cursor.left_skip]

def tagDirective? (c : Cursor) : Option (Token.Kind × Cursor) := do
  let (handle, c) ← tagHandle? c
  if !c.rest.head?.any isBlank then none else
  let (expansion, c) ← someUri? true c.skipBlanks
  if atSpace c.rest then some (.tagDirective handle expansion, c) else none

theorem left_tagDirective?_le {c after : Cursor} {kind : Token.Kind}
    (h : tagDirective? c = some (kind, after)) : after.left ≤ c.left := by
  simp only [tagDirective?, Option.bind_eq_bind, Option.bind_eq_some_iff] at h
  obtain ⟨handle, hhandle, h⟩ := h
  have := left_tagHandle?_le hhandle
  have := handle.2.left_skipBlanks_le
  split at h
  · cases h
  obtain ⟨expansion, hexpansion, h⟩ := Option.bind_eq_some_iff.1 h
  have := left_someUri?_le hexpansion
  grind

/-- What a directive of some name says. -/
def directiveKind? (name : List Char) (c : Cursor) : Option (Token.Kind × Cursor) :=
  if name = "YAML".toList then version? c
  else if name = "TAG".toList then tagDirective? c
  else none

theorem left_directiveKind?_le {name : List Char} {c after : Cursor} {kind : Token.Kind}
    (h : directiveKind? name c = some (kind, after)) : after.left ≤ c.left := by
  simp only [directiveKind?] at h
  split at h
  · exact left_version?_le h
  · split at h
    · exact left_tagDirective?_le h
    · cases h

/-- A directive, at its percent sign, with the rest of its line. -/
def directive? (c : Cursor) : Option (Token.Kind × Cursor) := do
  let (name, c) := (c.skip 1).span isNameChar
  if !atSpace c.rest then none else
  let (kind, c) ← directiveKind? name c.skipBlanks
  return (kind, ← c.finishLine?)

theorem left_directive?_le {c after : Cursor} {kind : Token.Kind}
    (h : directive? c = some (kind, after)) : after.left ≤ (c.skip 1).left := by
  have := (c.skip 1).left_span_le isNameChar
  have := ((c.skip 1).span isNameChar).2.left_skipBlanks_le
  simp only [directive?, Option.bind_eq_bind, Option.pure_def] at h
  split at h
  · cases h
  obtain ⟨read, hread, h⟩ := Option.bind_eq_some_iff.1 h
  obtain ⟨last, hlast, h⟩ := Option.bind_eq_some_iff.1 h
  have := left_directiveKind?_le hread
  have := Cursor.left_finishLine?_le hlast
  grind

end Strapdown.Yaml.Property
