namespace GraphSql.Text

/-- The characters with every `mark` written twice. -/
def doubled (mark : Char) (text : List Char) : List Char := text.flatMap fun c => if c = mark then [c, c] else [c]

def quotedWith (mark : Char) (text : String) : String := String.ofList (mark :: (doubled mark text.toList ++ [mark]))

def quoteName (name : String) : String := quotedWith '"' name

def quoteLiteral (value : String) : String := quotedWith '\'' value

@[simp] theorem doubled_nil (mark : Char) : doubled mark [] = [] := rfl

theorem doubled_append (mark : Char) (first second : List Char) :
    doubled mark (first ++ second) = doubled mark first ++ doubled mark second := by
  simp [doubled]

@[simp] theorem toList_quotedWith (mark : Char) (text : String) :
    (quotedWith mark text).toList = mark :: (doubled mark text.toList ++ [mark]) := by
  simp [quotedWith]

end GraphSql.Text
