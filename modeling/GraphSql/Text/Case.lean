namespace GraphSql.Text

def lowerAscii (text : String) : String := String.ofList (text.toList.map Char.toLower)

@[simp] theorem toList_lowerAscii (text : String) : (lowerAscii text).toList = text.toList.map Char.toLower := by
  simp [lowerAscii]

/-- Two names that an engine takes for one when they stand without quotes. -/
def sameUnquoted (first second : String) : Bool := lowerAscii first == lowerAscii second

end GraphSql.Text
