import DocumentCode.LeetCode.RemoveNthFromEnd
import DocumentCode.LeetCode.ReverseList
import DocumentCode.LeetCode.HasCycle
import DocumentCode.LeetCode.PalindromeList
import DocumentCode.LeetCode.MergeTwoLists
import DocumentCode.LeetCode.Atoi
import DocumentCode.LookAndSay
import DocumentCode.Linux.Epoll
import DocumentCode.Linux.Fifo
import DocumentCode.LeetCode.CountAndSay
import DocumentCode.Ensures
import DocumentCode.ForLoop
import DocumentCode.CArray
import DocumentCode.LeetCode.MoveZeroes
import DocumentCode.LeetCode.SingleNumber
import DocumentCode.LeetCode.PalindromeString
import DocumentCode.LeetCode.StrStr
import DocumentCode.LeetCode.LongestCommonPrefix
import DocumentCode.LeetCode.Anagram
import DocumentCode.LeetCode.PlusOne
import DocumentCode.LeetCode.Sudoku
import DocumentCode.BinTree
import DocumentCode.LeetCode.MaxDepth
import DocumentCode.LeetCode.FirstUniqChar
import DocumentCode.Nt
import DocumentCode.SFilter.Device
import DocumentCode.SFilter.Detach
import DocumentCode.SFilter.Requests
import DocumentCode.Seh
import DocumentCode.Custody
import DocumentCode.Sfsd.Allocation
import DocumentCode.Sfsd.Create
import DocumentCode.Sfsd.DirControl
import DocumentCode.Sfsd.Dispatch
import DocumentCode.Sfsd.Forgotten
import DocumentCode.Sfsd.Outcomes
import DocumentCode.Sfsd.Written
import DocumentCode.Linux.EcryptfsOptions
