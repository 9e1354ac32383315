import KernelNode.Collections.System

namespace std.net

/-- A socket address without the flow information and the scope of an IPv6
    address, which nothing here reads. -/
structure SocketAddr where
  ip : IpAddr
  port : UInt16
deriving DecidableEq

namespace parser

def to_digit (radix : Nat) (c : Char) : Option Nat :=
  let digit :=
    if '0' ≤ c ∧ c ≤ '9' then some (c.toNat - '0'.toNat)
    else if 'a' ≤ c ∧ c ≤ 'z' then some (c.toNat - 'a'.toNat + 10)
    else if 'A' ≤ c ∧ c ≤ 'Z' then some (c.toNat - 'A'.toNat + 10)
    else none
  digit.filter fun digit => digit < radix

/-- The digits at the start of the text, and the rest. -/
def read_digits (radix : Nat) : List Char → List Nat × List Char
  | [] => ([], [])
  | c :: rest =>
    match to_digit radix c with
    | none => ([], c :: rest)
    | some digit => ((digit :: (read_digits radix rest).1), (read_digits radix rest).2)

/-- A number below `bound`. A number with too many digits is refused, as is a
    leading zero where none is allowed. -/
def read_number (radix : Nat) (max_digits : Option Nat) (allow_leading_zero : Bool) (bound : Nat)
    (text : List Char) : Option (Nat × List Char) :=
  let (digits, rest) := read_digits radix text
  let result := digits.foldl (fun result digit => result * radix + digit) 0
  if digits.isEmpty ∨ max_digits.any (· < digits.length) then none
  else if !allow_leading_zero && text.head? = some '0' && digits.length > 1 then none
  else if result < bound then some (result, rest) else none

def read_given_char (c : Char) : List Char → Option (List Char)
  | [] => none
  | head :: rest => if head = c then some rest else none

def read_ipv4_addr (text : List Char) : Option (List.Vector UInt8 4 × List Char) := do
  let (a, text) ← read_number 10 (some 3) false 256 text
  let text ← read_given_char '.' text
  let (b, text) ← read_number 10 (some 3) false 256 text
  let text ← read_given_char '.' text
  let (c, text) ← read_number 10 (some 3) false 256 text
  let text ← read_given_char '.' text
  let (d, text) ← read_number 10 (some 3) false 256 text
  return (⟨[.ofNat a, .ofNat b, .ofNat c, .ofNat d], rfl⟩, text)

/-- At most `limit` groups of an IPv6 address as their two bytes each, and
    whether the last two were written as an IPv4 address, for which there have to
    be two groups left. -/
def read_groups : Nat → Bool → List Char → List UInt8 × Bool × List Char
  | 0, _, text => ([], false, text)
  | limit + 1, first, text =>
    let group_text := if first then some text else read_given_char ':' text
    match if 0 < limit then group_text.bind read_ipv4_addr else none with
    | some (octets, rest) => (octets.toList, true, rest)
    | none =>
      match group_text.bind (read_number 16 (some 4) true 65536) with
      | none => ([], false, text)
      | some (group, rest) =>
        let (groups, ipv4, rest) := read_groups limit false rest
        (.ofNat (group / 256) :: .ofNat (group % 256) :: groups, ipv4, rest)

/-- Eight groups, or fewer with `::` in the place of at least one. -/
def read_ipv6_addr (text : List Char) : Option (List.Vector UInt8 16 × List Char) := do
  let (head, head_ipv4, text) := read_groups 8 true text
  if h : head.length = 16 then
    return (⟨head, h⟩, text)
  -- an IPv4 part is not allowed before `::`
  if head_ipv4 then
    none
  let text ← read_given_char ':' text
  let text ← read_given_char ':' text
  let (tail, _, text) := read_groups (8 - (head.length / 2 + 1)) true text
  let bytes := head ++ List.replicate (16 - head.length - tail.length) 0 ++ tail
  if h : bytes.length = 16 then some (⟨bytes, h⟩, text) else none

def read_port (text : List Char) : Option (UInt16 × List Char) := do
  let text ← read_given_char ':' text
  let (port, text) ← read_number 10 none true 65536 text
  return (.ofNat port, text)

def read_scope_id (text : List Char) : Option (Nat × List Char) := do
  let text ← read_given_char '%' text
  read_number 10 none true (2 ^ 32) text

def read_socket_addr_v4 (text : List Char) : Option (SocketAddr × List Char) := do
  let (ip, text) ← read_ipv4_addr text
  let (port, text) ← read_port text
  return (⟨.V4 ip, port⟩, text)

def read_socket_addr_v6 (text : List Char) : Option (SocketAddr × List Char) := do
  let text ← read_given_char '[' text
  let (ip, text) ← read_ipv6_addr text
  let text := ((read_scope_id text).map Prod.snd).getD text
  let text ← read_given_char ']' text
  let (port, text) ← read_port text
  return (⟨.V6 ip, port⟩, text)

end parser

/-- The address that the whole text is. -/
def SocketAddr.from_str (text : List Char) : Option SocketAddr :=
  match (parser.read_socket_addr_v4 text).or (parser.read_socket_addr_v6 text) with
  | some (address, []) => some address
  | _ => none

example : SocketAddr.from_str "[::ffff:10.0.0.1]:8333".toList =
    some ⟨.V6 ⟨[0, 0, 0, 0, 0, 0, 0, 0, 0, 0, 255, 255, 10, 0, 0, 1], rfl⟩, 8333⟩ := by decide

end std.net

namespace std.str

/-- The white space of Unicode. -/
def is_whitespace (c : Char) : Bool :=
  c.toNat ∈ [0x20, 0x85, 0xa0, 0x1680, 0x2028, 0x2029, 0x202f, 0x205f, 0x3000] ||
    0x9 ≤ c.toNat && c.toNat ≤ 0xd || 0x2000 ≤ c.toNat && c.toNat ≤ 0x200a

def trim (text : List Char) : List Char :=
  ((text.dropWhile is_whitespace).reverse.dropWhile is_whitespace).reverse

end std.str
