/-!
# Splitting texts

A text is split at the first place where a separator stands.
-/

namespace RecordStore

/-- The characters before and after the first occurrence of a separator; nothing when the separator does
not occur. -/
def splitChars? (separator : List Char) : List Char → Option (List Char × List Char)
  | [] => none
  | c :: rest =>
      if separator.isPrefixOf (c :: rest) then some ([], (c :: rest).drop separator.length)
      else (splitChars? separator rest).map fun parts => (c :: parts.1, parts.2)

/-- The parts of a text before and after the first occurrence of a separator. -/
def splitFirst? (separator text : String) : Option (String × String) :=
  (splitChars? separator.toList text.toList).map fun parts =>
    (String.ofList parts.1, String.ofList parts.2)

end RecordStore
