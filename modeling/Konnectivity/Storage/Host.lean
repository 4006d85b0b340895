/-!
# The host part of a request address

`pkg/util/net.go`: how destination-host routing reads the host out of a
request address. Slicing a Go string past its end panics, so the function is
partial here and `none` is the panic.
-/

namespace Konnectivity

/-- `containIPv6Addr`: the shortest IPv6 address is `::`. -/
def containIPv6Addr (host : List Char) : Bool :=
  (host.splitOn ':').length > 2

/-- `containPortIPv6`: an IPv6 host with a port is bracketed. -/
def containPortIPv6 (host : List Char) : Bool :=
  host.contains '['

/-- `host[:strings.LastIndexByte(host, sep)]`. -/
def sliceToLast (sep : Char) (host : List Char) : Option (List Char) :=
  if sep ∈ host then
    some ((host.reverse.dropWhile (· ≠ sep)).tail.reverse)
  else none

/-- `strings.Trim(host, "[]")`. -/
def trimBrackets (host : List Char) : List Char :=
  let bracket : Char → Bool := fun c => c = '[' || c = ']'
  ((host.dropWhile bracket).reverse.dropWhile bracket).reverse

/-- `RemovePortFromHost` on the characters of the address. -/
def removePortFromChars (host : List Char) : Option (List Char) :=
  if !containIPv6Addr host then
    (host.splitOn ':').head?
  else if containPortIPv6 host then
    (sliceToLast ':' host).map trimBrackets
  else
    some (trimBrackets host)

/-- `RemovePortFromHost`. -/
def removePortFromHost (host : String) : Option String :=
  (removePortFromChars host.toList).map String.ofList

end Konnectivity
